import ArchiveLedger.Listing.Selection
import ArchiveLedger.Listing.Revision

/-!
# Pages of a listing

A page holds the first selected objects after its cursor, and its continuation is the
cursor at its last object.  The order of the objects is strict, so the objects after
a cursor are those that follow its object in the full listing (`selectObjects_after`,
for the two-column and the three-column seek alike), and the pages fetched one after
the other are the full listing (`pages_are_the_full_listing`).

A continuation names the revision of the catalog it was made on; with
`run_advances` every page accepted along a chain shows one snapshot.
-/

namespace ArchiveLedger

open Relational Transition

/-! ### The order of the objects -/

theorem pathRank_injective : Function.Injective pathRank := by
  intro p q h
  obtain ⟨hcollection, hrest⟩ := Prod.mk.inj (toLex.injective h)
  obtain ⟨hencoding, hbytes⟩ := Prod.mk.inj (toLex.injective hrest)
  cases p
  cases q
  simp only [ObjectPath.mk.injEq]
  exact ⟨textRank_injective hcollection, textRank_injective hencoding, blobRank_injective hbytes⟩

/-- No two objects stand at one place of the order. -/
theorem ranks_nodup (t : Table objectSchema) : (t.rows.map ObjectRow.rank).Nodup := by
  refine List.pairwise_map.mpr (t.apart.imp fun {r s} h hrank => ?_)
  have hpath : decide (r.path = s.path) = false := h.2
  exact of_decide_eq_false hpath (pathRank_injective hrank)

theorem selectObjects_strict (c : Catalog) (selection : CatalogSelection) :
    (selectObjects c selection).Pairwise fun a b => a.rank < b.rank :=
  Keyset.strict_sorted ((ranks_nodup c.objects).sublist (List.filter_sublist.map ObjectRow.rank))

theorem holds_of_mem_selectObjects {c : Catalog} {selection : CatalogSelection} {o : ObjectRow}
    (h : o ∈ selectObjects c selection) : selection.holds c o = true :=
  (List.mem_filter.mp ((Keyset.mem_sorted ObjectRow.rank).mp h)).2

/-- Among selected objects both seeks ask for the objects after the cursor's. -/
theorem holds_appendCursor {filter : CatalogFileFilter} {time : Nat} {selection : CatalogSelection}
    (hsel : selectionPredicate filter time = .ok selection) {c : Catalog} {o a : ObjectRow}
    (ho : selection.holds c o = true) (ha : selection.holds c a = true) :
    (appendCursor selection filter o.path.collectionId o.path.relativePathEncoding
      o.path.relativePathBytes).holds c a = decide (o.rank < a.rank) := by
  have hall : selection.clauses.all (fun clause => clause c a) = true := ha
  simp only [appendCursor, CatalogSelection.holds, List.all_append, hall, Bool.true_and, List.all_cons,
    List.all_nil, Bool.and_true]
  cases hcollection : filter.collectionId with
  | none => rfl
  | some collection =>
    have hsame : textRank o.path.collectionId = textRank a.path.collectionId := by
      rw [collection_of_holds hsel hcollection ho, collection_of_holds hsel hcollection ha]
    have hlex : ∀ (x : List Nat) (y z : List Nat ×ₗ List Nat), toLex (x, y) < toLex (x, z) ↔ y < z := by
      intro x y z
      rw [Prod.Lex.toLex_lt_toLex]
      simp
    rw [Option.isSome_some, if_pos rfl, ObjectRow.rank, ObjectRow.rank, pathRank, pathRank, hsame,
      decide_eq_decide, hlex]

/-- What is selected after an object's cursor follows the object in the listing. -/
theorem selectObjects_after {filter : CatalogFileFilter} {time : Nat} {selection : CatalogSelection}
    (hsel : selectionPredicate filter time = .ok selection) {c : Catalog} {xs ys : List ObjectRow}
    {o : ObjectRow} (hlist : selectObjects c selection = xs ++ o :: ys) :
    selectObjects c (appendCursor selection filter o.path.collectionId o.path.relativePathEncoding
      o.path.relativePathBytes) = ys := by
  have hmem : ∀ a, a ∈ xs ++ o :: ys → selection.holds c a = true := fun a ha =>
    holds_of_mem_selectObjects (hlist ▸ ha)
  have ho := hmem o (by simp)
  have hsplit : c.objects.rows.filter ((appendCursor selection filter o.path.collectionId
      o.path.relativePathEncoding o.path.relativePathBytes).holds c) =
      (c.objects.rows.filter (selection.holds c)).filter fun a => o.rank < a.rank := by
    rw [List.filter_filter]
    refine List.filter_congr fun a _ => ?_
    by_cases ha : selection.holds c a = true
    · rw [holds_appendCursor hsel ho ha, ha, Bool.and_true]
    · have hno : selection.clauses.all (fun clause => clause c a) = false := Bool.eq_false_iff.mpr ha
      simp only [appendCursor, CatalogSelection.holds, List.all_append, hno, Bool.false_and,
        Bool.and_false]
  rw [selectObjects, hsplit, ← Keyset.filter_sorted
    ((ranks_nodup c.objects).sublist (List.filter_sublist.map ObjectRow.rank))]
  have hstrict := selectObjects_strict c selection
  rw [hlist] at hstrict
  change (selectObjects c selection).filter _ = ys
  rw [hlist]
  exact Keyset.filter_after hstrict

/-! ### One page -/

/-- The page that starts with these objects. -/
def pageOf (env : QueryRuntime) (c : Catalog) (filter : CatalogFileFilter) (limit asOf : Nat)
    (objects : List ObjectRow) : CatalogObjectPage where
  objects := (objects.take limit).map readObject
  next := if limit < objects.length then
    (objects.take limit).getLast?.map fun o => (cursorAt env c filter asOf o).token else none
  asOfUtcMs := asOf
  unresolvedIdentitiesExcluded := !filter.locationGroups.isEmpty

theorem findObjects_eq_ok {env : QueryRuntime} {c : Catalog} {request : CatalogObjectRequest}
    {page : CatalogObjectPage} :
    findObjects env c request = .ok page ↔
      (1 ≤ request.limit ∧ request.limit ≤ 1000) ∧ ∃ asOf cursor selection,
        resume env c request = .ok (asOf, cursor) ∧
        pageSelection request.filter asOf cursor = .ok selection ∧
        page = pageOf env c request.filter request.limit asOf (selectObjects c selection) := by
  have hpage : ∀ asOf (objects : List ObjectRow), (⟨
      ((objects.take (request.limit + 1)).take request.limit).map readObject,
      if (objects.take (request.limit + 1)).length > request.limit then
        ((objects.take (request.limit + 1)).take request.limit).getLast?.map fun o =>
          (cursorAt env c request.filter asOf o).token else none,
      asOf, !request.filter.locationGroups.isEmpty⟩ : CatalogObjectPage) =
      pageOf env c request.filter request.limit asOf objects := by
    intro asOf objects
    have htake : (objects.take (request.limit + 1)).take request.limit =
        objects.take request.limit := by
      rw [List.take_take, Nat.min_eq_left (Nat.le_succ _)]
    have hmore : (objects.take (request.limit + 1)).length > request.limit ↔
        request.limit < objects.length := by
      rw [List.length_take]
      omega
    simp only [htake, hmore, pageOf]
  unfold findObjects
  by_cases hlimit : request.limit < 1 ∨ request.limit > 1000
  · rw [if_pos hlimit]
    refine ⟨nofun, fun h => ?_⟩
    omega
  · rw [if_neg hlimit, bind_eq_ok]
    have hin : 1 ≤ request.limit ∧ request.limit ≤ 1000 := by omega
    constructor
    · rintro ⟨⟨asOf, cursor⟩, hresume, h⟩
      obtain ⟨selection, hselection, h⟩ := bind_eq_ok.mp h
      cases h
      exact ⟨hin, asOf, cursor, selection, hresume, hselection, hpage asOf _⟩
    · rintro ⟨-, asOf, cursor, selection, hresume, hselection, rfl⟩
      refine ⟨(asOf, cursor), hresume, bind_eq_ok.mpr ⟨selection, hselection, ?_⟩⟩
      exact congrArg Except.ok (hpage asOf _)

/-- A token of at most the longest length reads back. -/
theorem decodeToken_token {env : QueryRuntime}
    (hread : ∀ cursor, env.readCursor cursor.json = some cursor) {cursor : Cursor}
    (hfits : cursor.token.utf8ByteSize ≤ maxToken) : decodeToken env cursor.token = .ok cursor := by
  unfold decodeToken
  rw [if_neg (Nat.not_lt.mpr hfits), Cursor.token, String.toList_ofList, Base64.decode_encode]
  dsimp only
  rw [hread]

/-- A longer one is refused. -/
theorem findObjects_long {env : QueryRuntime} {c : Catalog} {filter : CatalogFileFilter} {limit : Nat}
    (hlimit : 1 ≤ limit ∧ limit ≤ 1000) {token : String} (hlong : maxToken < token.utf8ByteSize) :
    findObjects env c ⟨filter, limit, some token⟩ = .error .invalidContinuation := by
  have hdecode : decodeToken env token = .error .invalidContinuation := if_pos hlong
  have hresume : resume env c ⟨filter, limit, some token⟩ = .error .invalidContinuation := by
    change (decodeToken env token >>= _) = _
    rw [hdecode]
    rfl
  unfold findObjects
  rw [if_neg (by dsimp only; omega), hresume]
  rfl

/-- A request without a continuation starts the listing. -/
theorem findObjects_first (env : QueryRuntime) {c : Catalog} {filter : CatalogFileFilter} {limit : Nat}
    {selection : CatalogSelection} (hlimit : 1 ≤ limit ∧ limit ≤ 1000)
    (hsel : selectionPredicate filter (filter.asOfUtcMs.getD env.now) = .ok selection) :
    findObjects env c ⟨filter, limit, none⟩ =
      .ok (pageOf env c filter limit (filter.asOfUtcMs.getD env.now) (selectObjects c selection)) := by
  refine findObjects_eq_ok.mpr ⟨hlimit, _, none, selection, rfl, ?_, rfl⟩
  rw [pageSelection, hsel]
  rfl

/-- A request with the cursor at an object goes on after the object. -/
theorem findObjects_continued (env : QueryRuntime)
    (hread : ∀ cursor, env.readCursor cursor.json = some cursor) {c : Catalog}
    {filter : CatalogFileFilter} {limit asOf : Nat} {selection : CatalogSelection}
    (hlimit : 1 ≤ limit ∧ limit ≤ 1000) (hsel : selectionPredicate filter asOf = .ok selection)
    (hasOf : ∀ time ∈ filter.asOfUtcMs, time = asOf) {xs ys : List ObjectRow} {o : ObjectRow}
    (hlist : selectObjects c selection = xs ++ o :: ys)
    (hfits : (cursorAt env c filter asOf o).token.utf8ByteSize ≤ maxToken) :
    findObjects env c ⟨filter, limit, some (cursorAt env c filter asOf o).token⟩ =
      .ok (pageOf env c filter limit asOf ys) := by
  refine findObjects_eq_ok.mpr ⟨hlimit, asOf, some (cursorAt env c filter asOf o),
    appendCursor selection filter o.path.collectionId o.path.relativePathEncoding
      o.path.relativePathBytes, ?_, ?_, ?_⟩
  · change (decodeToken env (cursorAt env c filter asOf o).token >>= _) = _
    rw [decodeToken_token hread hfits, bind_eq_ok]
    refine ⟨_, rfl, ?_⟩
    have hfixed : filter.asOfUtcMs.any (fun time => time ≠ asOf) = false := by
      cases htime : filter.asOfUtcMs with
      | none => rfl
      | some time => simp [hasOf time htime]
    rw [if_neg (by simp [cursorAt]), if_neg]
    · rfl
    · rintro (hhash | htime)
      · exact hhash rfl
      · exact Bool.eq_false_iff.mp hfixed htime
  · rw [pageSelection, hsel]
    rfl
  · rw [selectObjects_after hsel hlist]

/-! ### All pages -/

/-- The page a continuation asks for, requested at the time the clock shows then. -/
def fetchPage (env : QueryRuntime) (now : Option String → Nat) (c : Catalog)
    (filter : CatalogFileFilter) (limit : Nat) (token : Option String) :
    Option (List CatalogObject × Option String) :=
  (findObjects { env with now := now token } c ⟨filter, limit, token⟩).toOption.map fun page =>
    (page.objects, page.next)

/-- The continuations a listing needs are not longer than the longest token. -/
def TokensFit (env : QueryRuntime) (c : Catalog) (filter : CatalogFileFilter) (limit asOf : Nat)
    (objects : List ObjectRow) : Prop :=
  ∀ xs o ys, objects = xs ++ o :: ys → limit ∣ xs.length + 1 → ys ≠ [] →
    (cursorAt env c filter asOf o).token.utf8ByteSize ≤ maxToken

/-- The continuation before the object at a position. -/
def tokenBefore (env : QueryRuntime) (c : Catalog) (filter : CatalogFileFilter) (asOf : Nat)
    (objects : List ObjectRow) (i : Nat) : String :=
  (objects[i - 1]?.map fun o => (cursorAt env c filter asOf o).token).getD ""

/-- The page at a position, and the continuation after it. -/
theorem page_drop (env : QueryRuntime) (c : Catalog) (filter : CatalogFileFilter) {limit : Nat}
    (hlimit : 1 ≤ limit) (asOf : Nat) (objects : List ObjectRow) (i : Nat) :
    ((pageOf env c filter limit asOf (objects.drop i)).objects,
      (pageOf env c filter limit asOf (objects.drop i)).next) =
    (((objects.map readObject).drop i).take limit, if i + limit < (objects.map readObject).length then
      some (tokenBefore env c filter asOf objects (i + limit)) else none) := by
  have hitems : ((objects.drop i).take limit).map readObject =
      ((objects.map readObject).drop i).take limit := by
    rw [List.map_take, List.map_drop]
  have hnext : (if limit < (objects.drop i).length then
      ((objects.drop i).take limit).getLast?.map fun o => (cursorAt env c filter asOf o).token
        else none) = if i + limit < (objects.map readObject).length then
      some (tokenBefore env c filter asOf objects (i + limit)) else none := by
    rw [List.length_drop, List.length_map]
    by_cases hmore : i + limit < objects.length
    · have hlast : ((objects.drop i).take limit).getLast? = objects[i + limit - 1]? := by
        rw [List.getLast?_eq_getElem?, List.length_take, List.length_drop,
          Nat.min_eq_left (by omega), List.getElem?_take, if_pos (by omega), List.getElem?_drop]
        congr 1
        omega
      rw [if_pos (by omega), if_pos hmore, hlast, tokenBefore,
        List.getElem?_eq_getElem (by omega)]
      rfl
    · rw [if_neg (by omega), if_neg hmore]
  exact Prod.ext hitems hnext

/-- Following the continuations from the first page gives the objects of the full
listing in order. -/
theorem collect_pages {env : QueryRuntime} (hread : ∀ cursor, env.readCursor cursor.json = some cursor)
    (now : Option String → Nat) {c : Catalog} {filter : CatalogFileFilter} {limit : Nat}
    {selection : CatalogSelection} (hlimit : 1 ≤ limit ∧ limit ≤ 1000)
    (hsel : selectionPredicate filter (filter.asOfUtcMs.getD (now none)) = .ok selection)
    (hfits : TokensFit env c filter limit (filter.asOfUtcMs.getD (now none))
      (selectObjects c selection)) :
    Keyset.collect (fetchPage env now c filter limit) ((selectObjects c selection).length + 1) none =
      some ((selectObjects c selection).map readObject) := by
  have hcollect := Keyset.collect_eq (fetchPage env now c filter limit)
    ((selectObjects c selection).map readObject) (Nat.lt_of_lt_of_le Nat.zero_lt_one hlimit.1)
    (tokenBefore env c filter (filter.asOfUtcMs.getD (now none)) (selectObjects c selection)) ?_
  · rwa [List.length_map] at hcollect
  intro i hi
  rw [← page_drop env c filter hlimit.1]
  rcases hi with rfl | ⟨hdvd, hpos, hlt⟩
  · rw [if_pos rfl, fetchPage, findObjects_first _ hlimit hsel]
    rfl
  · rw [List.length_map] at hlt
    obtain ⟨k, rfl⟩ : ∃ k, i = k + 1 := ⟨i - 1, by omega⟩
    have hsplit : selectObjects c selection = (selectObjects c selection).take k ++
        (selectObjects c selection)[k] :: (selectObjects c selection).drop (k + 1) := by
      rw [← List.drop_eq_getElem_cons, List.take_append_drop]
    have htoken : tokenBefore env c filter (filter.asOfUtcMs.getD (now none))
        (selectObjects c selection) (k + 1) = (cursorAt env c filter
          (filter.asOfUtcMs.getD (now none)) (selectObjects c selection)[k]).token := by
      rw [tokenBefore, Nat.add_sub_cancel, List.getElem?_eq_getElem (by omega)]
      rfl
    have hfit := hfits _ _ _ hsplit (by rwa [List.length_take, Nat.min_eq_left (by omega)])
      (List.ne_nil_of_length_pos (by rw [List.length_drop]; omega))
    have hcontinued := findObjects_continued { env with now := now (some (tokenBefore env c
      filter (filter.asOfUtcMs.getD (now none)) (selectObjects c selection) (k + 1))) } hread hlimit
      hsel (fun time htime => by rw [Option.mem_def.mp htime]; rfl) hsplit hfit
    rw [if_neg (by omega), fetchPage, htoken]
    rw [htoken] at hcontinued
    exact congrArg (fun r => (Except.toOption r).map _) hcontinued

/-! ### One snapshot -/

/-- The continuation of a page is a cursor on the catalog the page was read from. -/
theorem next_eq_token {env : QueryRuntime} {c : Catalog} {request : CatalogObjectRequest}
    {page : CatalogObjectPage} {token : String} (h : findObjects env c request = .ok page)
    (hnext : page.next = some token) :
    ∃ asOf o, token = (cursorAt env c request.filter asOf o).token := by
  obtain ⟨-, asOf, cursor, selection, -, -, rfl⟩ := findObjects_eq_ok.mp h
  rw [pageOf, Option.ite_none_right_eq_some] at hnext
  obtain ⟨o, -, ho⟩ := Option.map_eq_some_iff.mp hnext.2
  exact ⟨asOf, o, ho.symm⟩

/-- A continuation that is accepted names the revision it is accepted at. -/
theorem revision_of_accepted (env : QueryRuntime)
    (hread : ∀ cursor, env.readCursor cursor.json = some cursor) {d : Catalog}
    {filter : CatalogFileFilter} {limit : Nat} {cursor : Cursor} {page : CatalogObjectPage}
    (h : findObjects env d ⟨filter, limit, some cursor.token⟩ = .ok page) :
    cursor.revision = d.revision := by
  obtain ⟨hlimit, asOf, resumed, selection, hresume, -, -⟩ := findObjects_eq_ok.mp h
  obtain ⟨decoded, hdecoded, hresume⟩ := bind_eq_ok.mp hresume
  have hfits : cursor.token.utf8ByteSize ≤ maxToken := by
    by_contra hlong
    rw [findObjects_long hlimit (by omega)] at h
    cases h
  rw [decodeToken_token hread hfits] at hdecoded
  cases hdecoded
  split at hresume
  · cases hresume
  · rename_i hcurrent
    exact not_not.mp (not_or.mp hcurrent).2

/-- A continuation of another revision is refused as stale. -/
theorem findObjects_stale (env : QueryRuntime)
    (hread : ∀ cursor, env.readCursor cursor.json = some cursor) {d : Catalog}
    {filter : CatalogFileFilter} {limit : Nat} (hlimit : 1 ≤ limit ∧ limit ≤ 1000) {cursor : Cursor}
    (hfits : cursor.token.utf8ByteSize ≤ maxToken) (hrevision : cursor.revision ≠ d.revision) :
    findObjects env d ⟨filter, limit, some cursor.token⟩ = .error .staleContinuation := by
  unfold findObjects
  rw [if_neg (by dsimp only; omega)]
  have hresume : resume env d ⟨filter, limit, some cursor.token⟩ = .error .staleContinuation := by
    change (decodeToken env cursor.token >>= _) = _
    rw [decodeToken_token hread hfits]
    exact if_pos (Or.inr hrevision)
  rw [hresume]
  rfl

/-- A page is read, other calls run, and its continuation is accepted some time later. -/
def Continues (env : QueryRuntime) (filter : CatalogFileFilter) (limit : Nat)
    (s : Catalog × CatalogObjectPage) (between : List Op × Nat) (t : Catalog × CatalogObjectPage) :
    Prop :=
  t.1 = run next s.1 between.1 ∧ ∃ token, s.2.next = some token ∧
    findObjects { env with now := between.2 } t.1 ⟨filter, limit, some token⟩ = .ok t.2

/-- The calls between two pages left the objects and the copies alone. -/
theorem same_of_continues {env : QueryRuntime}
    (hread : ∀ cursor, env.readCursor cursor.json = some cursor) {filter : CatalogFileFilter}
    {limit : Nat} {s t : Catalog × CatalogObjectPage} {between : List Op × Nat}
    {request : CatalogObjectRequest} {now : Nat}
    (hs : findObjects { env with now := now } s.1 request = .ok s.2)
    (h : Continues env filter limit s between t) :
    t.1.objects = s.1.objects ∧ t.1.files = s.1.files := by
  obtain ⟨hrun, token, hnext, hpage⟩ := h
  obtain ⟨asOf, o, rfl⟩ := next_eq_token hs hnext
  have hrevision := revision_of_accepted { env with now := between.2 } hread hpage
  rw [hrun] at hrevision ⊢
  exact (run_advances s.1 between.1).snapshot hrevision.symm

/-- Every page accepted along a chain shows the objects and copies of the first. -/
theorem chain_snapshot {env : QueryRuntime}
    (hread : ∀ cursor, env.readCursor cursor.json = some cursor) {filter : CatalogFileFilter}
    {limit : Nat} {s : Catalog × CatalogObjectPage} {request : CatalogObjectRequest} {now : Nat}
    (hs : findObjects { env with now := now } s.1 request = .ok s.2)
    {chain : List ((List Op × Nat) × (Catalog × CatalogObjectPage))}
    (h : Path (Continues env filter limit) s chain) :
    ((final s chain).1.objects = s.1.objects ∧ (final s chain).1.files = s.1.files) ∧
      ∃ request now, findObjects { env with now := now } (final s chain).1 request =
        .ok (final s chain).2 := by
  refine Path.invariant (P := fun t : Catalog × CatalogObjectPage =>
    (t.1.objects = s.1.objects ∧ t.1.files = s.1.files) ∧ ∃ request now,
      findObjects { env with now := now } t.1 request = .ok t.2) (fun t between u ht hstep => ?_)
    ⟨⟨rfl, rfl⟩, request, now, hs⟩ h
  obtain ⟨⟨hobjects, hfiles⟩, request, now, ht⟩ := ht
  obtain ⟨hobjects', hfiles'⟩ := same_of_continues hread ht hstep
  obtain ⟨-, token, -, hu⟩ := hstep
  exact ⟨⟨hobjects'.trans hobjects, hfiles'.trans hfiles⟩, _, _, hu⟩

/-- What a listing at a fixed time visits. -/
theorem visitObjects_eq {c : Catalog} {filter : CatalogFileFilter} {asOf : Nat}
    {selection : CatalogSelection} (hsel : selectionPredicate filter asOf = .ok selection) {σ : Type}
    (visit : σ → CatalogObjectPath → QueryResult σ) (start : σ) (now : Nat) :
    visitObjects c { filter with asOfUtcMs := some asOf } now visit start = (do
      let final ← commitAll visit start
        (((selectObjects c selection).map readObject).map CatalogObject.path)
      .ok (final, ((selectObjects c selection).map readObject).length)) := by
  have hpaths : ((selectObjects c selection).map readObject).map CatalogObject.path =
      (selectObjects c selection).map readPath := by
    rw [List.map_map]
    rfl
  have hlength : ((selectObjects c selection).map readObject).length =
      ((selectObjects c selection).map readPath).length := by
    rw [List.length_map, List.length_map]
  rw [hpaths, hlength]
  change (selectionPredicate filter asOf >>= _) = _
  rw [hsel]
  rfl

/-- **Pagination is the full listing.**  When its tokens fit, the chain of pages ends
and holds what `visit_objects` visits at the time of the first page, in order.
Whatever calls run between the pages, all pages accepted along a chain show one
snapshot, and after calls that changed an object or a copy the next is refused as
stale. -/
theorem pages_are_the_full_listing {env : QueryRuntime}
    (hread : ∀ cursor, env.readCursor cursor.json = some cursor) (now : Option String → Nat)
    {c : Catalog} {filter : CatalogFileFilter} {limit : Nat} {selection : CatalogSelection}
    (hlimit : 1 ≤ limit ∧ limit ≤ 1000)
    (hsel : selectionPredicate filter (filter.asOfUtcMs.getD (now none)) = .ok selection)
    (hfits : TokensFit env c filter limit (filter.asOfUtcMs.getD (now none))
      (selectObjects c selection)) :
    ∃ first objects,
      findObjects { env with now := now none } c ⟨filter, limit, none⟩ = .ok first ∧
      Keyset.collect (fetchPage env now c filter limit) (objects.length + 1) none = some objects ∧
      (∀ {σ : Type} (visit : σ → CatalogObjectPath → QueryResult σ) (start : σ) (time : Nat),
        visitObjects c { filter with asOfUtcMs := some first.asOfUtcMs } time visit start = (do
          let final ← commitAll visit start (objects.map CatalogObject.path)
          .ok (final, objects.length))) ∧
      ∀ chain d page, Path (Continues env filter limit) (c, first) chain →
        final (c, first) chain = (d, page) →
        (d.objects = c.objects ∧ d.files = c.files) ∧
        ∀ token ops time, page.next = some token → token.utf8ByteSize ≤ maxToken →
          ((run next d ops).objects ≠ d.objects ∨ (run next d ops).files ≠ d.files ∨
            ∃ p op q, ops = p ++ op :: q ∧ CommitsEvidence (run next d p) op) →
          findObjects { env with now := time } (run next d ops) ⟨filter, limit, some token⟩ =
            .error .staleContinuation := by
  have hfirst := @findObjects_first { env with now := now none } c filter limit selection hlimit hsel
  refine ⟨_, (selectObjects c selection).map readObject, hfirst, ?_, ?_, ?_⟩
  · rw [List.length_map]
    exact collect_pages hread now hlimit hsel hfits
  · intro σ visit start time
    exact visitObjects_eq hsel visit start time
  · intro chain d page hchain hlast
    obtain ⟨hsame, request, time, hpage⟩ := chain_snapshot hread hfirst hchain
    rw [hlast] at hsame hpage
    refine ⟨hsame, fun token ops time' hnext hfit hchanged => ?_⟩
    obtain ⟨asOf, o, rfl⟩ := next_eq_token hpage hnext
    refine findObjects_stale { env with now := time' } hread hlimit hfit fun hrevision => ?_
    obtain ⟨hobjects, hfiles⟩ := (run_advances d ops).snapshot hrevision.symm
    rcases hchanged with h | h | ⟨p, op, q, rfl, h⟩
    · exact h hobjects
    · exact h hfiles
    · exact revision_ne_of_commitsEvidence h hrevision.symm

/-! ### The text of a cursor -/

theorem Cursor.text_injective : Function.Injective Cursor.text := by
  intro x y h
  delta Cursor.text at h
  simp only [List.append_assoc] at h
  obtain ⟨harchive, h⟩ := JsonText.writeString_cancel (List.append_cancel_left h)
  obtain ⟨hrevision, h⟩ := JsonText.writeNat_cancel (by simp [JsonText.Ends])
    (by simp [JsonText.Ends]) (List.append_cancel_left h)
  obtain ⟨hhash, h⟩ := JsonText.writeString_cancel (List.append_cancel_left h)
  obtain ⟨hasOf, h⟩ := JsonText.writeNat_cancel (by simp [JsonText.Ends])
    (by simp [JsonText.Ends]) (List.append_cancel_left h)
  obtain ⟨hcollection, h⟩ := JsonText.writeString_cancel (List.append_cancel_left h)
  obtain ⟨hencoding, h⟩ := JsonText.writeString_cancel (List.append_cancel_left h)
  obtain ⟨hpath, -⟩ := JsonText.writeBytes_cancel (List.append_cancel_left h)
  cases x
  cases y
  simp only [Cursor.mk.injEq]
  exact ⟨harchive, hrevision, hhash, hasOf, hcollection, hencoding, hpath⟩

/-- Different cursors are different texts, so that a parser can tell them apart. -/
theorem Cursor.json_injective : Function.Injective Cursor.json := fun _ _ h =>
  Cursor.text_injective (String.ofList_injective (utf8_injective h))

/-- A token is longer than the path in it. -/
theorem length_path_le_token (cursor : Cursor) : cursor.path.length ≤ cursor.token.utf8ByteSize := by
  calc cursor.path.length
      ≤ (JsonText.writeBytes cursor.path).length := JsonText.length_le_writeBytes _
    _ ≤ cursor.text.length := by
        delta Cursor.text
        rw [List.length_append, List.length_append]
        exact (Nat.le_add_left _ _).trans (Nat.le_add_right _ _)
    _ ≤ cursor.json.length := by
        rw [Cursor.json, length_utf8]
        exact Text.length_le_utf8ByteSize _
    _ ≤ (Base64.encode Base64.urlSafeNoPad cursor.json).length := Base64.length_le_encode _
    _ ≤ cursor.token.utf8ByteSize := Text.length_le_utf8ByteSize _

/-! ### Listings of two objects -/

/-- A runtime with a parser for the texts of cursors. -/
noncomputable def sampleRuntime : QueryRuntime where
  hash _ := "5f1d"
  readCursor := Function.partialInv Cursor.json
  now := 120

theorem sampleRuntime_reads (cursor : Cursor) :
    sampleRuntime.readCursor cursor.json = some cursor :=
  Function.partialInv_left Cursor.json_injective cursor

/-- The small archive with a second path. -/
def listingOps : List Op :=
  sampleOps ++ [.observeBatch (fun n => sampleIds (n + 1))
    [{ sampleObservation "usb" 100 (sampleDigest 9) false with path := .utf8 "b.jpg" }]]

def listingCatalog : Catalog := run next (Catalog.create "archive" "Archive") listingOps

theorem sample_pages_are_the_full_listing :
    ∃ objects, Keyset.collect (fetchPage sampleRuntime (fun _ => 120) listingCatalog .default 1)
      (objects.length + 1) none = some objects := by
  have hfit : ∀ o ∈ selectObjects listingCatalog ⟨[]⟩,
      (cursorAt sampleRuntime listingCatalog .default 120 o).token.utf8ByteSize ≤ maxToken := by
    decide +kernel
  have hlimit : 1 ≤ 1 ∧ 1 ≤ 1000 := by decide
  have hsel : selectionPredicate .default 120 = .ok ⟨[]⟩ := rfl
  obtain ⟨first, objects, -, hcollect, -⟩ := @pages_are_the_full_listing sampleRuntime
    sampleRuntime_reads (fun _ => 120) listingCatalog .default 1 ⟨[]⟩ hlimit hsel
    (fun xs o ys hlist _ _ => hfit o (by
      change selectObjects listingCatalog ⟨[]⟩ = _ at hlist
      rw [hlist]
      simp))
  exact ⟨objects, hcollect⟩

/-- An object with a path longer than any token may be. -/
def longRow (id : String) (letter : UInt8) : ObjectRow where
  objectId := id
  path := ⟨"photos", "utf8", letter :: List.replicate maxToken 97⟩
  relativePathDisplay := id
  expectedBlake3 := none
  expectedSizeBytes := none

theorem length_longRow (id : String) (letter : UInt8) :
    (longRow id letter).path.relativePathBytes.length = maxToken + 1 := by
  rw [longRow, List.length_cons, List.length_replicate]

theorem longRows_apart : [longRow "o" 97, longRow "oo" 98].Pairwise objectSchema.Apart := by
  have hpath : (longRow "o" 97).path ≠ (longRow "oo" 98).path := fun h =>
    absurd (List.cons.inj (congrArg ObjectPath.relativePathBytes h)).1 (show (97 : UInt8) ≠ 98 by decide)
  exact List.pairwise_pair.mpr ⟨show "o" ≠ "oo" by decide, decide_eq_false hpath⟩

/-- The small archive with two such objects. -/
def longCatalog : Catalog :=
  { next (Catalog.create "archive" "Archive") (.recordBatch sampleRegistry "host" 1) with
    objects := ⟨_, longRows_apart⟩ }

/-- The continuation of a page is refused when a long path ends the page. -/
theorem long_token_ends_the_chain :
    ¬ ∀ (env : QueryRuntime) (now : Option String → Nat) (c : Catalog) (filter : CatalogFileFilter)
      (limit : Nat) (selection : CatalogSelection),
      (∀ cursor, env.readCursor cursor.json = some cursor) → 1 ≤ limit ∧ limit ≤ 1000 →
      selectionPredicate filter (filter.asOfUtcMs.getD (now none)) = .ok selection →
      ∃ fuel objects, Keyset.collect (fetchPage env now c filter limit) fuel none = some objects := by
  intro h
  obtain ⟨fuel, objects, hcollect⟩ := h sampleRuntime (fun _ => 120) longCatalog .default 1 ⟨[]⟩
    sampleRuntime_reads (by decide) rfl
  have hlength : (selectObjects longCatalog ⟨[]⟩).length = 2 := by
    rw [selectObjects, Keyset.length_sorted]
    rfl
  have hlong : ∀ o ∈ selectObjects longCatalog ⟨[]⟩, ∀ time,
      maxToken < (cursorAt sampleRuntime longCatalog .default time o).token.utf8ByteSize := by
    intro o ho time
    have hrow : o ∈ longCatalog.objects.rows :=
      (List.mem_filter.mp ((Keyset.mem_sorted ObjectRow.rank).mp ho)).1
    have hpath : o.path.relativePathBytes.length = maxToken + 1 := by
      rcases List.mem_cons.mp hrow with rfl | hrow
      · exact length_longRow "o" 97
      · rw [List.mem_singleton.mp hrow]
        exact length_longRow "oo" 98
    have hle := length_path_le_token (cursorAt sampleRuntime longCatalog .default time o)
    rw [cursorAt, hpath] at hle
    exact hle
  -- the first page has a continuation, and whatever object it is at, it is too long
  have hfirst : ∃ items token, fetchPage sampleRuntime (fun _ => 120) longCatalog .default 1 none =
      some (items, some token) ∧ maxToken < token.utf8ByteSize := by
    obtain ⟨o, rest, hlist⟩ : ∃ o rest, selectObjects longCatalog ⟨[]⟩ = o :: rest :=
      List.exists_cons_of_length_pos (by omega)
    refine ⟨[readObject o], (cursorAt sampleRuntime longCatalog .default 120 o).token, ?_,
      hlong o (hlist ▸ List.mem_cons_self) 120⟩
    rw [fetchPage, @findObjects_first _ _ _ _ ⟨[]⟩ (by decide) rfl, hlist]
    rw [hlist] at hlength
    simp only [pageOf, hlength]
    rfl
  obtain ⟨items, token, hfetch, htoken⟩ := hfirst
  have hrefused : fetchPage sampleRuntime (fun _ => 120) longCatalog .default 1 (some token) = none := by
    rw [fetchPage, findObjects_long (by decide) htoken]
    rfl
  cases fuel with
  | zero => cases hcollect
  | succ fuel =>
    rw [Keyset.collect, hfetch] at hcollect
    cases fuel with
    | zero => cases hcollect
    | succ fuel =>
      simp only [Keyset.collect, hrefused] at hcollect
      cases hcollect

end ArchiveLedger
