import ArchiveLedger.Annex.LocationLog
import ArchiveLedger.Compact.FileRows

/-!
# Pages of a file search

A page holds the next rows of the listing, each with its copies and its sources, and its
continuation is the token of its last row, which reads back to that row's cursor
(`readFiles_eq`).  So the pages fetched one after the other are the listing
(`collect_files`).
-/

namespace ArchiveLedger.Compact

open Relational Transition

/-- A database as the projector writes it: no check before the epoch, and every path that is
declared UTF-8 is a text. -/
structure FileDb extends CompactDb where
  checksTimed : ∀ v ∈ checks.rows, 0 ≤ v.checkedAt
  pathsRead : ∀ f ∈ fileObjects.rows, f.path.encoding = "utf8" → ∃ text, f.path.bytes = utf8 text

/-! ### Tokens -/

/-- The token after a row. -/
def FoundFile.token (r : FoundFile) (status : ProjectionStatus) (queryHash : String) (asOf : Option Nat) :
    FileToken where
  asOfUtcMs := asOf
  version := tokenVersion
  appliedEventSeq := status.records
  queryHash := queryHash
  collectionId := r.collection.collectionId
  pathEncoding := r.native.path.encoding
  pathBytes := String.ofList (Base64.encode Base64.urlSafeNoPad r.native.path.bytes)
  fileRefId := r.native.canonicalId

theorem writeTime_cancel {a b : Option Nat} {r s : List Char} (hr : JsonText.Ends r) (hs : JsonText.Ends s)
    (h : a.elim "null".toList JsonText.writeNat ++ r = b.elim "null".toList JsonText.writeNat ++ s) :
    a = b ∧ r = s := by
  have hdigit : ∀ (n : Nat) (r s : List Char), JsonText.writeNat n ++ r ≠ "null".toList ++ s := by
    intro n r s hnull
    obtain ⟨c, cs, hc⟩ := List.exists_cons_of_ne_nil (Nat.toDigits_ne_nil (n := n) (b := 10))
    have hisDigit : Char.isDigit c = true :=
      Nat.isDigit_of_mem_toDigits (b := 10) (n := n) (by decide) (by decide) (hc ▸ List.mem_cons_self)
    rw [JsonText.writeNat, hc] at hnull
    rw [(List.cons.inj hnull).1] at hisDigit
    exact absurd hisDigit (by decide)
  cases a with
  | none =>
    cases b with
    | none => exact ⟨rfl, List.append_cancel_left h⟩
    | some n => exact absurd h.symm (hdigit n s r)
  | some m =>
    cases b with
    | none => exact absurd h (hdigit m r s)
    | some n =>
      obtain ⟨hmn, hrs⟩ := JsonText.writeNat_cancel hr hs h
      exact ⟨congrArg some hmn, hrs⟩

/-- Different tokens are different texts. -/
theorem FileToken.json_injective : Function.Injective FileToken.json := by
  intro x y h
  have h := String.ofList_injective (utf8_injective h)
  unfold FileToken.text at h
  simp only [List.append_assoc] at h
  obtain ⟨hasOf, h⟩ := writeTime_cancel (by simp [JsonText.Ends]) (by simp [JsonText.Ends])
    (List.append_cancel_left h)
  obtain ⟨hversion, h⟩ := JsonText.writeNat_cancel (by simp [JsonText.Ends]) (by simp [JsonText.Ends])
    (List.append_cancel_left h)
  obtain ⟨hseq, h⟩ := JsonText.writeNat_cancel (by simp [JsonText.Ends]) (by simp [JsonText.Ends])
    (List.append_cancel_left h)
  obtain ⟨hhash, h⟩ := JsonText.writeString_cancel (List.append_cancel_left h)
  obtain ⟨hcollection, h⟩ := JsonText.writeString_cancel (List.append_cancel_left h)
  obtain ⟨hencoding, h⟩ := JsonText.writeString_cancel (List.append_cancel_left h)
  obtain ⟨hbytes, h⟩ := JsonText.writeString_cancel (List.append_cancel_left h)
  obtain ⟨hfile, -⟩ := JsonText.writeString_cancel (List.append_cancel_left h)
  cases x
  cases y
  simp only [FileToken.mk.injEq]
  exact ⟨hasOf, hversion, hseq, hhash, hcollection, hencoding, hbytes, hfile⟩

def FileToken.print (token : FileToken) : String :=
  String.ofList (Base64.encode Base64.urlSafeNoPad token.json)

theorem decodeFileToken_print {env : FindRuntime} (hread : ∀ token, env.readToken token.json = some token)
    {token : FileToken} (hversion : token.version = tokenVersion) :
    decodeFileToken env token.print = .ok token := by
  rw [decodeFileToken, FileToken.print, String.toList_ofList, Base64.decode_encode, Option.bind_some, hread]
  exact if_neg (not_not.mpr hversion)

theorem cursor_token (r : FoundFile) (status : ProjectionStatus) (queryHash : String) (asOf : Option Nat) :
    (r.token status queryHash asOf).cursor = .ok r.cursor := by
  rw [FileToken.cursor, FoundFile.token, String.toList_ofList, Base64.decode_encode]
  rfl

/-- The path of a listed File reads back. -/
theorem readBack_fromParts {encoding : String} {bytes : Bytes} {display : String}
    (h : encoding = "utf8" → ∃ text, bytes = utf8 text) :
    LosslessPath.readBack (fromParts encoding bytes display) = some bytes := by
  by_cases hencoding : encoding = "utf8"
  · obtain ⟨text, rfl⟩ := h hencoding
    rw [fromParts, if_pos hencoding, LosslessPath.readBack, Annex.fromUTF8?_utf8]
    rfl
  · rw [fromParts, if_neg hencoding, LosslessPath.readBack]
    simp [Base64.decode_encode]

namespace FileDb

variable (db : FileDb)

theorem encodeFileToken_summary {r : FoundFile} (hr : r ∈ db.foundFiles)
    (status : ProjectionStatus) (queryHash : String) (asOf : Option Nat) :
    encodeFileToken r.summary status.records queryHash asOf =
      .ok ((r.token status queryHash asOf).print) := by
  obtain ⟨f, hf, c, -, rfl⟩ := (CompactDb.mem_foundFiles db.toCompactDb).mp hr
  have hpath : LosslessPath.readBack (db.foundFile c f).summary.logicalPath = some f.path.bytes :=
    readBack_fromParts (db.pathsRead f hf)
  rw [encodeFileToken, hpath]
  have hencoding : (db.foundFile c f).summary.logicalPath.encoding = f.path.encoding := by
    show (fromParts f.path.encoding _ _).encoding = _
    rw [fromParts]
    split <;> rfl
  rw [hencoding]
  rfl

end FileDb

/-! ### Items -/

/-- The matching sources of an item, in their order. -/
def Tables.sources (t : Tables) (filter : FileFilter) (item : FileSummary) : List FileMatchingSource :=
  match sourceGroup filter with
  | none => []
  | some group =>
      (Keyset.sorted (fun r : FileMatchingSource × StoredPath =>
        toLex (textRank r.1.locationId, toLex (textRank r.2.encoding, blobRank r.2.bytes)))
        (t.sourceRows filter group item)).map Prod.fst

/-- The item of a row with its copies and its sources. -/
def Tables.completed (t : Tables) (filter : FileFilter) (r : FoundFile) : FileSummary :=
  { r.summary with
    matchingSources := t.sources filter r.summary
    currentCopyCount := (t.measuredCopies r.summary).length
    presentCopyCount := (t.measuredCopies r.summary).countP fun b => b.state = .present
    lastSeenTimeUtcMs := (t.latest ((t.measuredCopies r.summary).map CopyBindingRow.latestPresence)).map Int.toNat
    lastVerifiedTimeUtcMs :=
      (t.latest ((t.measuredCopies r.summary).map CopyBindingRow.latestIntegrity)).map Int.toNat }

namespace FileDb

variable (db : FileDb)

theorem optionalU64_latest (ids : List (Option Int)) :
    optionalU64 (db.latest ids) = .ok ((db.latest ids).map Int.toNat) := by
  cases h : db.latest ids with
  | none => rfl
  | some time =>
    obtain ⟨v, hv, htime⟩ := List.mem_filterMap.mp (List.max?_mem h)
    obtain ⟨id, -, hv⟩ := List.mem_flatMap.mp hv
    rw [leftJoin_checks, List.mem_singleton] at hv
    obtain ⟨w, rfl, rfl⟩ := Option.map_eq_some_iff.mp htime
    obtain ⟨k, -, hk⟩ := Option.bind_eq_some_iff.mp hv.symm
    exact if_pos (db.checksTimed w (Table.mem_of_get? hk))

theorem populateMetrics_eq (filter : FileFilter) (r : FoundFile) : db.populateMetrics r.summary =
    .ok { db.completed filter r with matchingSources := [] } := by
  refine bind_eq_ok.mpr ⟨_, optionalU64_latest db _, bind_eq_ok.mpr ⟨_, optionalU64_latest db _, ?_⟩⟩
  rfl

end FileDb

/-- An item whose sources are few is completed. -/
theorem populateSources_eq {t : Tables} {filter : FileFilter} {r : FoundFile}
    (h : (t.sources filter r.summary).length ≤ 1000) :
    t.populateSources filter { t.completed filter r with matchingSources := [] } =
      .ok (t.completed filter r) := by
  unfold Tables.populateSources
  cases hgroup : sourceGroup filter with
  | none =>
    have hnone : t.sources filter r.summary = [] := by rw [Tables.sources, hgroup]
    simp only [Tables.completed, hnone]
  | some group =>
    have hsources : t.sources filter r.summary = (Keyset.sorted (fun r : FileMatchingSource × StoredPath =>
        toLex (textRank r.1.locationId, toLex (textRank r.2.encoding, blobRank r.2.bytes)))
        (t.sourceRows filter group r.summary)).map Prod.fst := by rw [Tables.sources, hgroup]
    have hrows : t.sourceRows filter group { t.completed filter r with matchingSources := [] } =
        t.sourceRows filter group r.summary := rfl
    rw [hsources, List.length_map] at h
    simp only [hrows]
    rw [List.take_of_length_le (by omega), ← hsources, if_neg]
    · rfl
    · rw [hsources, List.length_map]
      omega

/-! ### One page -/

/-- The continuation after the first rows of a listing. -/
def nextToken (env : FindRuntime) (status : ProjectionStatus) (filter : FileFilter) (limit : Nat)
    (rows : List FoundFile) : Option String :=
  if limit < rows.length then
    (rows.take limit).getLast?.map fun r =>
      (r.token status (env.fileQueryHashAt (filter.shape status.appliedFrontierHash)) filter.asOfUtcMs).print
  else none

namespace FileDb

variable (db : FileDb)

/-- A page holds the first of its rows, completed, and continues after the last of them. -/
theorem readFiles_eq (env : FindRuntime) {status : ProjectionStatus} {limit : Nat} {filter : FileFilter}
    {cursor : Option FileToken} {after : Option FileCursor} (hcursor : cursor.mapM FileToken.cursor = .ok after)
    (hfew : ∀ r ∈ db.queryRows filter after, (db.sources filter r.summary).length ≤ 1000)
    (hrows : ∀ r ∈ db.queryRows filter after, r ∈ db.foundFiles) :
    readFiles env db.toTables status limit filter cursor =
      .ok ⟨status.records, ((db.queryRows filter after).take limit).map (db.completed filter),
        nextToken env status filter limit (db.queryRows filter after)⟩ := by
  have htake : ((db.queryRows filter after).take (limit + 1)).take limit = (db.queryRows filter after).take limit := by
    rw [List.take_take, Nat.min_eq_left (Nat.le_succ _)]
  have hmore : ((db.queryRows filter after).take (limit + 1)).length > limit ↔
      limit < (db.queryRows filter after).length := by
    rw [List.length_take]
    omega
  have hmem : ∀ r ∈ (db.queryRows filter after).take limit, r ∈ db.queryRows filter after := fun _ h =>
    List.mem_of_mem_take h
  refine bind_eq_ok.mpr ⟨after, hcursor, ?_⟩
  dsimp only
  rw [htake]
  refine bind_eq_ok.mpr ⟨nextToken env status filter limit (db.queryRows filter after), ?_, ?_⟩
  · rw [nextToken, continueAfter]
    by_cases hlong : limit < (db.queryRows filter after).length
    · rw [if_pos (decide_eq_true (hmore.mpr hlong)), if_pos hlong, List.getLast?_map]
      cases hlast : ((db.queryRows filter after).take limit).getLast? with
      | none => rfl
      | some r =>
        have hr := hrows r (hmem r (List.mem_of_getLast? hlast))
        show (encodeFileToken r.summary _ _ _ >>= fun token => pure (some token)) = _
        rw [encodeFileToken_summary db hr]
        rfl
    · rw [if_neg (fun h => hlong (hmore.mp (of_decide_eq_true h))), if_neg hlong]
  · have hmetrics : (((db.queryRows filter after).take limit).map FoundFile.summary).mapM db.populateMetrics =
        .ok (((db.queryRows filter after).take limit).map fun r =>
          { db.completed filter r with matchingSources := [] }) := by
      rw [List.mapM_map]
      exact Outcome.mapM_map fun r _ => populateMetrics_eq db filter r
    refine bind_eq_ok.mpr ⟨_, hmetrics, bind_eq_ok.mpr ⟨_, ?_, rfl⟩⟩
    rw [List.mapM_map]
    exact Outcome.mapM_map fun r hr => populateSources_eq (hfew r (hmem r hr))

end FileDb

/-! ### All pages -/

/-- The filter at the time the first page freezes. -/
def FileFilter.frozen (filter : FileFilter) (now : Nat) : FileFilter :=
  if (filter.locationGroups.any fun group => group.verifiedWithinMs.isSome) ∧ filter.asOfUtcMs.isNone then
    { filter with asOfUtcMs := some now }
  else filter

theorem FileFilter.frozen_eq (filter : FileFilter) (now : Nat) :
    filter.frozen now = { filter with asOfUtcMs := (filter.frozen now).asOfUtcMs } := by
  rw [frozen]
  split <;> rfl

theorem freezeFileQueryTime_none (now : Nat) (filter : FileFilter) :
    freezeFileQueryTime now filter none = .ok (filter.frozen now) := by
  rw [freezeFileQueryTime, FileFilter.frozen]
  split <;> rfl

/-- A continuation brings the time of the first page back. -/
theorem freezeFileQueryTime_some (now later : Nat) {filter : FileFilter} {token : FileToken}
    (h : token.asOfUtcMs = (filter.frozen now).asOfUtcMs) :
    freezeFileQueryTime later filter (some token) = .ok (filter.frozen now) := by
  have hsame : ¬(filter.asOfUtcMs.isSome = true ∧ filter.asOfUtcMs ≠ token.asOfUtcMs) := by
    intro hboth
    rw [h, FileFilter.frozen] at hboth
    split at hboth
    · rename_i hfreeze
      simp [Option.isNone_iff_eq_none.mp hfreeze.2] at hboth
    · exact hboth.2 rfl
  show (if _ then _ else _) = _
  rw [if_neg hsame, h, ← FileFilter.frozen_eq]

/-- The page a continuation asks for, requested at the time the clock shows then. -/
def fetchFiles (env : FindRuntime) (now : Option String → Nat) (status : ProjectionStatus) (t : Tables)
    (filter : FileFilter) (limit : Nat) (token : Option String) : Option (List FileSummary × Option String) :=
  (findFiles env (now token) status t ⟨filter, limit, token⟩).toOption.map fun page => (page.items, page.next)

/-- What every page of a search needs: a caught-up projection, and a request that is accepted at the
time it is frozen at. -/
structure Accepted (status : ProjectionStatus) (filter : FileFilter) (limit now : Nat) : Prop where
  bounded : validateLimit limit = .ok ()
  wellFormed : validateFilter filter = .ok ()
  caughtUp : status.validate = .ok ()
  frozen : validateFilter (filter.frozen now) = .ok ()

theorem resumeFiles_first {env : FindRuntime} {status : ProjectionStatus} {filter : FileFilter} {limit now : Nat}
    (h : Accepted status filter limit now) :
    resumeFiles env now status ⟨filter, limit, none⟩ = .ok (filter.frozen now, none) := by
  refine bind_eq_ok.mpr ⟨(), h.bounded, bind_eq_ok.mpr ⟨(), h.wellFormed, bind_eq_ok.mpr ⟨(), h.caughtUp, ?_⟩⟩⟩
  refine bind_eq_ok.mpr ⟨none, rfl, bind_eq_ok.mpr ⟨_, freezeFileQueryTime_none now filter, ?_⟩⟩
  exact bind_eq_ok.mpr ⟨(), h.frozen, rfl⟩

theorem resumeFiles_continued {env : FindRuntime}
    (hread : ∀ token, env.readToken token.json = some token) {status : ProjectionStatus}
    {filter : FileFilter} {limit now : Nat} (h : Accepted status filter limit now) (later : Nat)
    {token : FileToken} (hversion : token.version = tokenVersion) (hseq : token.appliedEventSeq = status.records)
    (hasOf : token.asOfUtcMs = (filter.frozen now).asOfUtcMs)
    (hhash : token.queryHash = env.fileQueryHashAt ((filter.frozen now).shape status.appliedFrontierHash)) :
    resumeFiles env later status ⟨filter, limit, some token.print⟩ = .ok (filter.frozen now, some token) := by
  refine bind_eq_ok.mpr ⟨(), h.bounded, bind_eq_ok.mpr ⟨(), h.wellFormed, bind_eq_ok.mpr ⟨(), h.caughtUp, ?_⟩⟩⟩
  have hdecoded : (some token.print).mapM (decodeFileToken env) = .ok (some token) := by
    rw [Option.mapM_some, decodeFileToken_print hread hversion]
    rfl
  refine bind_eq_ok.mpr ⟨some token, hdecoded, ?_⟩
  refine bind_eq_ok.mpr ⟨_, freezeFileQueryTime_some now later hasOf, bind_eq_ok.mpr ⟨(), h.frozen, ?_⟩⟩
  exact if_neg (by simp [hseq, hhash])

namespace FileDb

variable (db : FileDb)

theorem findFiles_first (env : FindRuntime) {status : ProjectionStatus} {filter : FileFilter} {limit now : Nat}
    (h : Accepted status filter limit now)
    (hfew : ∀ r ∈ db.listing (filter.frozen now), (db.sources (filter.frozen now) r.summary).length ≤ 1000) :
    findFiles env now status db.toTables ⟨filter, limit, none⟩ =
      .ok ⟨status.records, ((db.listing (filter.frozen now)).take limit).map (db.completed (filter.frozen now)),
        nextToken env status (filter.frozen now) limit (db.listing (filter.frozen now))⟩ := by
  refine bind_eq_ok.mpr ⟨_, resumeFiles_first h, ?_⟩
  have hrows := CompactDb.queryRows_first db.toCompactDb (filter.frozen now)
  rw [← hrows]
  refine readFiles_eq db env rfl (hrows ▸ hfew) fun r hr => ?_
  rw [hrows] at hr
  exact ((CompactDb.mem_listing db.toCompactDb).mp hr).1

theorem findFiles_continued (env : FindRuntime)
    (hread : ∀ token, env.readToken token.json = some token) {status : ProjectionStatus}
    {filter : FileFilter} {limit now : Nat} (h : Accepted status filter limit now) (later : Nat)
    (hfew : ∀ r ∈ db.listing (filter.frozen now), (db.sources (filter.frozen now) r.summary).length ≤ 1000)
    {xs ys : List FoundFile} {r : FoundFile} (hlist : db.listing (filter.frozen now) = xs ++ r :: ys) :
    findFiles env later status db.toTables ⟨filter, limit, some (r.token status
      (env.fileQueryHashAt ((filter.frozen now).shape status.appliedFrontierHash)) (filter.frozen now).asOfUtcMs).print⟩ =
      .ok ⟨status.records, (ys.take limit).map (db.completed (filter.frozen now)),
        nextToken env status (filter.frozen now) limit ys⟩ := by
  refine bind_eq_ok.mpr ⟨_, resumeFiles_continued hread h later rfl rfl rfl rfl, ?_⟩
  have hrows := CompactDb.queryRows_after db.toCompactDb hlist
  have hmem : ∀ s ∈ ys, s ∈ db.listing (filter.frozen now) := by
    intro s hs
    rw [hlist]
    exact List.mem_append_right _ (List.mem_cons_of_mem _ hs)
  have hpage := @readFiles_eq db env status limit (filter.frozen now) (some (r.token status
    (env.fileQueryHashAt ((filter.frozen now).shape status.appliedFrontierHash)) (filter.frozen now).asOfUtcMs))
    (some r.cursor)
  rw [hrows] at hpage
  refine hpage ?_ (fun s hs => hfew s (hmem s hs)) fun s hs =>
    ((CompactDb.mem_listing db.toCompactDb).mp (hmem s hs)).1
  show (FileToken.cursor _ >>= fun cursor => pure (some cursor)) = _
  rw [cursor_token]
  rfl

/-- The continuation before the row at a position. -/
def tokenBefore (env : FindRuntime) (status : ProjectionStatus) (filter : FileFilter) (rows : List FoundFile)
    (i : Nat) : String :=
  (rows[i - 1]?.map fun r =>
    (r.token status (env.fileQueryHashAt (filter.shape status.appliedFrontierHash)) filter.asOfUtcMs).print).getD ""

theorem nextToken_drop (env : FindRuntime) (status : ProjectionStatus) (filter : FileFilter) {limit : Nat}
    (hlimit : 1 ≤ limit) (rows : List FoundFile) (i : Nat) :
    nextToken env status filter limit (rows.drop i) =
      if i + limit < rows.length then some (tokenBefore env status filter rows (i + limit)) else none := by
  rw [nextToken, List.length_drop]
  by_cases hmore : i + limit < rows.length
  · have hlast : ((rows.drop i).take limit).getLast? = rows[i + limit - 1]? := by
      rw [List.getLast?_eq_getElem?, List.length_take, List.length_drop, Nat.min_eq_left (by omega),
        List.getElem?_take, if_pos (by omega), List.getElem?_drop]
      congr 1
      omega
    rw [if_pos (by omega), if_pos hmore, hlast, tokenBefore, List.getElem?_eq_getElem (by omega)]
    rfl
  · rw [if_neg (by omega), if_neg hmore]

/-- **The pages are the listing.**  Following the continuations from the first page gives every
listed row once, completed, in the order of the listing. -/
theorem collect_files (env : FindRuntime)
    (hread : ∀ token, env.readToken token.json = some token) (now : Option String → Nat)
    {status : ProjectionStatus} {filter : FileFilter} {limit : Nat} (h : Accepted status filter limit (now none))
    (hfew : ∀ r ∈ db.listing (filter.frozen (now none)),
      (db.sources (filter.frozen (now none)) r.summary).length ≤ 1000) :
    Keyset.collect (fetchFiles env now status db.toTables filter limit)
        ((db.listing (filter.frozen (now none))).length + 1) none =
      some ((db.listing (filter.frozen (now none))).map (db.completed (filter.frozen (now none)))) := by
  have hlimit : 1 ≤ limit := by
    by_contra hnot
    have := h.bounded
    rw [validateLimit, if_neg (by omega)] at this
    cases this
  have hcollect := Keyset.collect_eq (fetchFiles env now status db.toTables filter limit)
    ((db.listing (filter.frozen (now none))).map (db.completed (filter.frozen (now none)))) hlimit
    (tokenBefore env status (filter.frozen (now none)) (db.listing (filter.frozen (now none)))) ?_
  · rwa [List.length_map] at hcollect
  intro i hi
  rw [List.length_map] at hi ⊢
  rw [← nextToken_drop env status _ hlimit, ← List.map_drop, ← List.map_take]
  rcases hi with rfl | ⟨-, hpos, hlt⟩
  · rw [if_pos rfl, fetchFiles, findFiles_first db env h hfew]
    rfl
  · obtain ⟨k, rfl⟩ : ∃ k, i = k + 1 := ⟨i - 1, by omega⟩
    have hsplit : db.listing (filter.frozen (now none)) = (db.listing (filter.frozen (now none))).take k ++
        (db.listing (filter.frozen (now none)))[k] :: (db.listing (filter.frozen (now none))).drop (k + 1) := by
      rw [← List.drop_eq_getElem_cons, List.take_append_drop]
    have htoken : tokenBefore env status (filter.frozen (now none)) (db.listing (filter.frozen (now none))) (k + 1) =
        ((db.listing (filter.frozen (now none)))[k].token status
          (env.fileQueryHashAt ((filter.frozen (now none)).shape status.appliedFrontierHash))
          (filter.frozen (now none)).asOfUtcMs).print := by
      rw [tokenBefore, Nat.add_sub_cancel, List.getElem?_eq_getElem (by omega)]
      rfl
    rw [if_neg (by omega), fetchFiles, htoken, findFiles_continued db env hread h _ hfew hsplit]
    rfl

end FileDb

end ArchiveLedger.Compact
