import ArchiveLedger.Annex.Keys
import ArchiveLedger.Foundation.SortedMap
import ArchiveLedger.Foundation.Text

/-!
# Location logs

`parse_location_log` of `annex.rs`.  A line of a git-annex location log is a timestamp, a status
and the UUID of a repository; the state of a repository is that of its line with the greatest
timestamp, wherever Git's union merge has put it.

The code keeps for each UUID what the last line of the file says (`parseLocationLog_render`,
`look_settle`) and never reads the timestamp.
-/

namespace ArchiveLedger.Annex

open SortedMap

/-! ### The parser -/

/-- The states of `parse_location_log`. -/
inductive Availability where
  | present | missing | unknown
deriving DecidableEq, Repr

/-- An entry of the map from UUIDs to states. -/
structure RemoteState where
  uuid : String
  state : Availability
deriving DecidableEq, Repr

/-- `AnnexImportError::InvalidGitOutput`. -/
structure InvalidGitOutput where
  operation : String
  detail : String
deriving DecidableEq, Repr

def availability (status : String) : Availability :=
  if status = "1" then .present else if status = "0" then .missing else .unknown

/-- One line; `utf8Error` is the text of the error of `str::from_utf8`. -/
def parseLocationLine (utf8Error : Bytes → String) (key : String) (line : Bytes) :
    Except InvalidGitOutput RemoteState :=
  match String.fromUTF8? ⟨line.toArray⟩ with
  | none => .error ⟨"parse git-annex location log",
      "location log for " ++ key ++ " is not UTF-8: " ++ utf8Error line⟩
  | some text =>
      match Text.splitWhitespace text with
      | [_timestamp, present, uuid] =>
          if uuid = "" then
            .error ⟨"parse git-annex location log", "location log for " ++ key ++ " contains an empty UUID"⟩
          else .ok ⟨uuid, availability present⟩
      | _ => .error ⟨"parse git-annex location log",
          "location log for " ++ key ++ " contains a malformed line"⟩

/-- The lines in their order; each sets the state of its UUID. -/
def parseLocationLog (utf8Error : Bytes → String) (key : String) (blob : Bytes) :
    Except InvalidGitOutput (List RemoteState) :=
  (blob.splitOn 10).foldlM (fun states line =>
    if line = [] then .ok states
    else (parseLocationLine utf8Error key line).map fun entry => put RemoteState.uuid states entry) []

/-! ### The format -/

/-- The seconds, and the decimal digits after the point when there is one. -/
structure Timestamp where
  seconds : Nat
  fraction : List (Fin 10)
deriving DecidableEq, Repr

namespace Timestamp

/-- The value of the digits after the point. -/
def fractionValue : List (Fin 10) → ℚ
  | [] => 0
  | d :: rest => (d.val + fractionValue rest) / 10

def time (t : Timestamp) : ℚ := t.seconds + fractionValue t.fraction

/-- The digits, and the letter `s`. -/
def chars (t : Timestamp) : List Char :=
  Nat.toDigits 10 t.seconds ++
    (if t.fraction = [] then [] else '.' :: t.fraction.map fun d => Nat.digitChar d.val) ++ ['s']

def text (t : Timestamp) : String := String.ofList t.chars

end Timestamp

structure LogLine where
  timestamp : Timestamp
  status : String
  uuid : String
  isStatus : Text.Word status
  isUuid : Text.Word uuid

namespace LogLine

def time (l : LogLine) : ℚ := l.timestamp.time

/-- What the status of a line says. -/
def state (l : LogLine) : RemoteState := ⟨l.uuid, availability l.status⟩

def text (l : LogLine) : String := l.timestamp.text ++ " " ++ (l.status ++ " " ++ l.uuid)

end LogLine

/-- The bytes of a log. -/
def render (lines : List LogLine) : Bytes := lines.flatMap fun l => utf8 l.text ++ [10]

/-! ### Text -/

theorem ten_ne_ofNat {n : Nat} (hlow : 128 ≤ n) (hhigh : n < 256) : (10 : UInt8) ≠ UInt8.ofNat n := by
  intro h
  have hval := congrArg UInt8.toNat h
  rw [UInt8.toNat_ofNat', Nat.mod_eq_of_lt hhigh] at hval
  have : (10 : UInt8).toNat = 10 := rfl
  omega

/-- In UTF-8 the newline is a byte of no other character. -/
theorem eq_newline_of_mem_utf8EncodeChar {c : Char} (h : 10 ∈ String.utf8EncodeChar c) : c = '\n' := by
  unfold String.utf8EncodeChar at h
  dsimp only at h
  split at h
  · rename_i hle
    have hval := congrArg UInt8.toNat (List.mem_singleton.mp h)
    rw [UInt8.toNat_ofNat', Nat.mod_eq_of_lt (by omega)] at hval
    exact Char.ext (UInt32.toNat_inj.mp hval.symm)
  · exfalso
    split at h
    · simp only [List.mem_cons, List.not_mem_nil, or_false] at h
      rcases h with h | h
      · exact ten_ne_ofNat (by omega) (by omega) h
      · exact ten_ne_ofNat (by omega) (by omega) h
    · split at h
      · simp only [List.mem_cons, List.not_mem_nil, or_false] at h
        rcases h with h | h | h
        · exact ten_ne_ofNat (by omega) (by omega) h
        · exact ten_ne_ofNat (by omega) (by omega) h
        · exact ten_ne_ofNat (by omega) (by omega) h
      · simp only [List.mem_cons, List.not_mem_nil, or_false] at h
        rcases h with h | h | h | h
        · exact ten_ne_ofNat (by omega) (by omega) h
        · exact ten_ne_ofNat (by omega) (by omega) h
        · exact ten_ne_ofNat (by omega) (by omega) h
        · exact ten_ne_ofNat (by omega) (by omega) h

theorem newline_notMem_utf8 {s : String} (h : '\n' ∉ s.toList) : 10 ∉ utf8 s := by
  intro hmem
  rw [utf8_eq] at hmem
  obtain ⟨c, hc, hten⟩ := List.mem_flatMap.mp hmem
  exact h (eq_newline_of_mem_utf8EncodeChar hten ▸ hc)

/-- A text is read back from its bytes. -/
theorem fromUTF8?_utf8 (s : String) : String.fromUTF8? ⟨(utf8 s).toArray⟩ = some s := by
  have hbytes : (⟨(utf8 s).toArray⟩ : ByteArray) = s.toByteArray := rfl
  rw [hbytes, String.fromUTF8?, dif_pos s.isValidUTF8]
  rfl

theorem isWhitespace_isDigit {c : Char} (h : c.isDigit = true) : Text.isWhitespace c = false := by
  have hrange : 48 ≤ c.toNat ∧ c.toNat ≤ 57 := Char.isDigit_iff_toNat.mp h
  simp only [Text.isWhitespace, Bool.or_eq_false_iff, Bool.and_eq_false_iff, decide_eq_false_iff_not,
    beq_eq_false_iff_ne]
  omega

theorem Timestamp.isWord (t : Timestamp) : Text.Word t.text := by
  have hdigit : ∀ d : Fin 10, Text.isWhitespace (Nat.digitChar d.val) = false := by decide
  have hchars : ∀ c ∈ t.chars, Text.isWhitespace c = false := by
    intro c hc
    rcases List.mem_append.mp hc with hc | hc
    · rcases List.mem_append.mp hc with hc | hc
      · exact isWhitespace_isDigit (Nat.isDigit_of_mem_toDigits (by decide) (by decide) hc)
      · split at hc
        · cases hc
        · rcases List.mem_cons.mp hc with rfl | hc
          · decide
          · obtain ⟨d, -, rfl⟩ := List.mem_map.mp hc
            exact hdigit d
    · rw [List.mem_singleton.mp hc]
      decide
  refine Text.word_ofList ?_ hchars
  rw [Timestamp.chars]
  exact List.append_ne_nil_of_right_ne_nil _ (List.cons_ne_nil 's' [])

/-- The fields of a line are read back. -/
theorem LogLine.splitWhitespace_text (l : LogLine) :
    Text.splitWhitespace l.text = [l.timestamp.text, l.status, l.uuid] := by
  rw [LogLine.text, Text.splitWhitespace_cons l.timestamp.isWord, Text.splitWhitespace_cons l.isStatus,
    Text.splitWhitespace_word l.isUuid]

theorem LogLine.newline_notMem (l : LogLine) : '\n' ∉ l.text.toList := by
  have hword : ∀ {s : String}, Text.Word s → '\n' ∉ s.toList := by
    intro s hs hmem
    exact absurd (hs.2 '\n' hmem) (by decide)
  have hblank : '\n' ∉ (" " : String).toList := by decide
  simp only [LogLine.text, String.toList_append, List.mem_append, not_or]
  exact ⟨⟨hword l.timestamp.isWord, hblank⟩, ⟨hword l.isStatus, hblank⟩, hword l.isUuid⟩

/-! ### What the parser keeps -/

/-- The state of each line put over what was there. -/
def settle (lines : List LogLine) : List RemoteState :=
  lines.foldl (fun states l => put RemoteState.uuid states l.state) []

/-- The last line of a repository in the file. -/
def lastLine (lines : List LogLine) (uuid : String) : Option LogLine :=
  lines.reverse.find? fun l => l.uuid = uuid

theorem parseLocationLine_text (utf8Error : Bytes → String) (key : String) (l : LogLine) :
    parseLocationLine utf8Error key (utf8 l.text) = .ok l.state := by
  simp only [parseLocationLine, fromUTF8?_utf8, l.splitWhitespace_text, if_neg l.isUuid.1]
  rfl

theorem utf8_empty : utf8 "" = [] := rfl

theorem utf8_text_ne_nil (l : LogLine) : utf8 l.text ≠ [] := by
  intro hnil
  have hread := l.splitWhitespace_text
  have hempty := fromUTF8?_utf8 l.text
  rw [hnil, ← utf8_empty, fromUTF8?_utf8] at hempty
  rw [← Option.some.inj hempty] at hread
  cases hread

theorem splitOn_render (lines : List LogLine) :
    (render lines).splitOn 10 = lines.map (fun l => utf8 l.text) ++ [[]] := by
  induction lines with
  | nil => rfl
  | cons l lines ih =>
    have hsplit : render (l :: lines) = utf8 l.text ++ 10 :: render lines := by
      simp [render]
    have hnone : ∀ b ∈ utf8 l.text, (b == 10) = false := by
      intro b hb
      have hne : b ≠ 10 := fun heq => newline_notMem_utf8 l.newline_notMem (heq ▸ hb)
      simpa using hne
    rw [List.splitOn_eq_splitOnP] at ih ⊢
    rw [hsplit, List.splitOnP_append_cons_of_forall_mem hnone 10 (by decide), ih]
    rfl

/-- On what git-annex writes, the parser succeeds and folds the states of the lines. -/
theorem parseLocationLog_render (utf8Error : Bytes → String) (key : String) (lines : List LogLine) :
    parseLocationLog utf8Error key (render lines) = .ok (settle lines) := by
  have hfold : ∀ (rest : List LogLine) (states : List RemoteState),
      (rest.map (fun l : LogLine => utf8 l.text) ++ [[]]).foldlM (fun states line =>
        if line = [] then Except.ok states
        else (parseLocationLine utf8Error key line).map fun entry => put RemoteState.uuid states entry) states =
      .ok (rest.foldl (fun states (l : LogLine) => put RemoteState.uuid states l.state) states) := by
    intro rest
    induction rest with
    | nil => intro states; rfl
    | cons l rest ih =>
      intro states
      rw [List.map_cons, List.cons_append, List.foldlM_cons, if_neg (utf8_text_ne_nil l),
        parseLocationLine_text]
      exact ih _
  rw [parseLocationLog, splitOn_render]
  exact hfold lines []

theorem settle_concat (lines : List LogLine) (l : LogLine) :
    settle (lines ++ [l]) = put RemoteState.uuid (settle lines) l.state := by
  rw [settle, List.foldl_append]
  rfl

theorem strict_settle (lines : List LogLine) : Strict RemoteState.uuid (settle lines) := by
  induction lines using List.reverseRecOn with
  | nil => exact List.Pairwise.nil
  | append_singleton lines l ih =>
    rw [settle_concat]
    exact strict_put ih _

theorem lastLine_concat (lines : List LogLine) (l : LogLine) (uuid : String) :
    lastLine (lines ++ [l]) uuid = if l.uuid = uuid then some l else lastLine lines uuid := by
  rw [lastLine, List.reverse_append, List.reverse_singleton, List.singleton_append]
  by_cases h : l.uuid = uuid
  · rw [List.find?_cons_of_pos (by simpa using h), if_pos h]
  · rw [List.find?_cons_of_neg (by simpa using h), if_neg h]
    rfl

/-- The state of a repository is that of its last line. -/
theorem look_settle (lines : List LogLine) (uuid : String) :
    look RemoteState.uuid (settle lines) uuid = (lastLine lines uuid).map LogLine.state := by
  induction lines using List.reverseRecOn with
  | nil => rfl
  | append_singleton lines l ih =>
    rw [settle_concat, look_put (strict_settle lines), lastLine_concat, ih]
    have huuid : l.state.uuid = l.uuid := rfl
    rw [huuid]
    split
    · rfl
    · rfl

theorem lastLine_some {lines : List LogLine} {uuid : String} {l : LogLine}
    (h : lastLine lines uuid = some l) : l ∈ lines ∧ l.uuid = uuid :=
  ⟨List.mem_reverse.mp (List.mem_of_find?_eq_some h), by simpa using List.find?_some h⟩

theorem exists_lastLine {lines : List LogLine} {l : LogLine} (hl : l ∈ lines) :
    ∃ last, lastLine lines l.uuid = some last := by
  cases hlast : lastLine lines l.uuid with
  | some last => exact ⟨last, rfl⟩
  | none =>
    have hnone := List.find?_eq_none.mp hlast l (List.mem_reverse.mpr hl)
    simp at hnone

theorem mem_settle_iff {lines : List LogLine} {entry : RemoteState} :
    entry ∈ settle lines ↔ ∃ last, lastLine lines entry.uuid = some last ∧ entry = last.state := by
  have hmem : entry ∈ settle lines ↔ look RemoteState.uuid (settle lines) entry.uuid = some entry :=
    ⟨look_of_mem (strict_settle lines), fun h => (look_some h).1⟩
  rw [hmem, look_settle, Option.map_eq_some_iff]
  exact exists_congr fun last => and_congr_right fun _ => eq_comm

/-! ### The latest facts -/

/-- A line with the greatest timestamp of its repository. -/
def IsLatest (lines : List LogLine) (l : LogLine) : Prop :=
  l ∈ lines ∧ ∀ m ∈ lines, m.uuid = l.uuid → m.time ≤ l.time

/-- The map has, for each repository, the state of its latest line, and nothing else. -/
def MeansLatest (utf8Error : Bytes → String) (key : String) (lines : List LogLine) : Prop :=
  ∃ states, parseLocationLog utf8Error key (render lines) = .ok states ∧
    ∀ entry, entry ∈ states ↔ ∃ l, IsLatest lines l ∧ entry = l.state

/-- The order of the lines does not matter. -/
def OrderFree (utf8Error : Bytes → String) (key : String) (lines : List LogLine) : Prop :=
  ∀ merged : List LogLine, merged.Perm lines →
    parseLocationLog utf8Error key (render merged) = parseLocationLog utf8Error key (render lines)

/-- The last line of each repository says what its latest line says. -/
def LatestIsLast (lines : List LogLine) : Prop :=
  ∀ l last, IsLatest lines l → lastLine lines l.uuid = some last → last.state = l.state

/-- All lines of a repository say the same. -/
def OneState (lines : List LogLine) : Prop :=
  ∀ l ∈ lines, ∀ m ∈ lines, l.uuid = m.uuid → l.state = m.state

theorem exists_latest {lines : List LogLine} {l : LogLine} (hl : l ∈ lines) :
    ∃ latest, IsLatest lines latest ∧ latest.uuid = l.uuid := by
  have hmem : l ∈ lines.filter fun m => m.uuid = l.uuid := List.mem_filter.mpr ⟨hl, by simp⟩
  cases hmax : (lines.filter fun m => m.uuid = l.uuid).argmax LogLine.time with
  | none =>
    rw [List.argmax_eq_none.mp hmax] at hmem
    cases hmem
  | some latest =>
    obtain ⟨hlatest, huuid⟩ := List.mem_filter.mp (List.argmax_mem hmax)
    have huuid : latest.uuid = l.uuid := by simpa using huuid
    refine ⟨latest, ⟨hlatest, ?_⟩, huuid⟩
    intro m hm hsame
    exact List.le_of_mem_argmax (List.mem_filter.mpr ⟨hm, by simpa using hsame.trans huuid⟩) hmax

/-- The code gives the latest facts exactly when they come last. -/
theorem meansLatest_iff (utf8Error : Bytes → String) (key : String) (lines : List LogLine) :
    MeansLatest utf8Error key lines ↔ LatestIsLast lines := by
  rw [MeansLatest, parseLocationLog_render]
  constructor
  · intro h l last hl hlast
    obtain ⟨states, hstates, hmem⟩ := h
    cases hstates
    obtain ⟨last', hlast', hstate⟩ := mem_settle_iff.mp ((hmem l.state).mpr ⟨l, hl, rfl⟩)
    rw [Option.some.inj (hlast.symm.trans hlast'), hstate]
  · intro h
    refine ⟨settle lines, rfl, ?_⟩
    intro entry
    rw [mem_settle_iff]
    constructor
    · intro hentry
      obtain ⟨last, hlast, rfl⟩ := hentry
      obtain ⟨hmem, huuid⟩ := lastLine_some hlast
      obtain ⟨latest, hlatest, hsame⟩ := exists_latest hmem
      exact ⟨latest, hlatest, h latest last hlatest (by rw [hsame, huuid]; exact hlast)⟩
    · intro hentry
      obtain ⟨l, hl, rfl⟩ := hentry
      obtain ⟨last, hlast⟩ := exists_lastLine hl.1
      exact ⟨last, hlast, (h l last hl hlast).symm⟩

theorem latestIsLast_of_oneState {lines : List LogLine} (h : OneState lines) : LatestIsLast lines := by
  intro l last hl hlast
  obtain ⟨hmem, huuid⟩ := lastLine_some hlast
  exact h last hmem l hl.1 huuid

/-- When all lines of a repository say the same, every line says what the map has. -/
theorem look_of_oneState {lines : List LogLine} (h : OneState lines) {l : LogLine} (hl : l ∈ lines) :
    look RemoteState.uuid (settle lines) l.uuid = some l.state := by
  obtain ⟨last, hlast⟩ := exists_lastLine hl
  obtain ⟨hmem, huuid⟩ := lastLine_some hlast
  rw [look_settle, hlast, Option.map_some, h last hmem l hl huuid]

theorem settle_perm {lines merged : List LogLine} (h : OneState lines) (hperm : merged.Perm lines) :
    settle merged = settle lines := by
  have hmerged : OneState merged := fun l hl m hm => h l (hperm.subset hl) m (hperm.subset hm)
  refine SortedMap.ext (strict_settle merged) (strict_settle lines) ?_
  intro uuid
  by_cases hline : ∃ l ∈ lines, l.uuid = uuid
  · obtain ⟨l, hl, rfl⟩ := hline
    rw [look_of_oneState h hl, look_of_oneState hmerged (hperm.symm.subset hl)]
  · have hnone : ∀ {ls : List LogLine}, (∀ l ∈ ls, l ∈ lines) → lastLine ls uuid = none := by
      intro ls hls
      cases hlast : lastLine ls uuid with
      | none => rfl
      | some last => exact absurd ⟨last, hls _ (lastLine_some hlast).1, (lastLine_some hlast).2⟩ hline
    rw [look_settle, look_settle, hnone fun l hl => hperm.subset hl, hnone fun l hl => hl]

/-- A merge can put any line last. -/
theorem exists_perm_last {lines : List LogLine} {l : LogLine} (hl : l ∈ lines) :
    ∃ merged, merged.Perm lines ∧ lastLine merged l.uuid = some l := by
  obtain ⟨before, after, rfl⟩ := List.mem_iff_append.mp hl
  refine ⟨before ++ after ++ [l], ?_, ?_⟩
  · exact (List.perm_append_comm.trans (by simpa using List.perm_middle.symm))
  · rw [lastLine_concat, if_pos rfl]

theorem orderFree_iff (utf8Error : Bytes → String) (key : String) (lines : List LogLine) :
    OrderFree utf8Error key lines ↔ OneState lines := by
  unfold OrderFree
  simp only [parseLocationLog_render, Except.ok.injEq]
  constructor
  · intro h l hl m hm huuid
    obtain ⟨merged, hperm, hlast⟩ := exists_perm_last hl
    obtain ⟨merged', hperm', hlast'⟩ := exists_perm_last hm
    have heq := (h merged hperm).trans (h merged' hperm').symm
    have hlook := congrArg (fun states => look RemoteState.uuid states l.uuid) heq
    simp only [look_settle, hlast] at hlook
    rw [huuid, hlast'] at hlook
    exact Option.some.inj hlook
  · intro h merged hperm
    exact settle_perm h hperm

/-- **What a location log means to the code**: it gives the latest facts when they come last, and it
gives them whatever the order when all lines of each repository say the same. -/
theorem locationLog_iff (utf8Error : Bytes → String) (key : String) (lines : List LogLine) :
    (MeansLatest utf8Error key lines ↔ LatestIsLast lines) ∧
      (MeansLatest utf8Error key lines ∧ OrderFree utf8Error key lines ↔ OneState lines) := by
  refine ⟨meansLatest_iff utf8Error key lines, ?_⟩
  rw [meansLatest_iff, orderFree_iff]
  exact ⟨fun h => h.2, fun h => ⟨latestIsLast_of_oneState h, h⟩⟩

/-! ### A merged log -/

theorem isWord_char {c : Char} (h : Text.isWhitespace c = false) : Text.Word (String.ofList [c]) :=
  Text.word_ofList (List.cons_ne_nil c []) (List.forall_mem_singleton.mpr h)

def removedLine : LogLine :=
  ⟨⟨2, []⟩, String.ofList ['0'], String.ofList ['r'], isWord_char (by decide), isWord_char (by decide)⟩

def keptLine : LogLine :=
  ⟨⟨1, []⟩, String.ofList ['1'], String.ofList ['r'], isWord_char (by decide), isWord_char (by decide)⟩

/-- A merge that has the newer line first: the copy has been missing since the second second, and
the code has it present. -/
theorem merged_stale : IsLatest [removedLine, keptLine] removedLine ∧
    removedLine.state = ⟨"r", .missing⟩ ∧ ∀ (utf8Error : Bytes → String) (key : String),
      parseLocationLog utf8Error key (utf8 "2s 0 r\n1s 1 r\n") = .ok [⟨"r", .present⟩] ∧
        ¬ MeansLatest utf8Error key [removedLine, keptLine] := by
  have hlatest : IsLatest [removedLine, keptLine] removedLine := by
    refine ⟨List.mem_cons_self, ?_⟩
    intro m hm _
    have htime : keptLine.time ≤ removedLine.time := by
      norm_num [LogLine.time, Timestamp.time, Timestamp.fractionValue, keptLine, removedLine]
    rcases List.mem_cons.mp hm with rfl | hm
    · exact le_rfl
    · rw [List.mem_singleton.mp hm]
      exact htime
  refine ⟨hlatest, by decide, ?_⟩
  intro utf8Error key
  have hbytes : utf8 "2s 0 r\n1s 1 r\n" = render [removedLine, keptLine] := by decide
  rw [hbytes, parseLocationLog_render, meansLatest_iff]
  refine ⟨by decide, ?_⟩
  intro h
  exact absurd (h removedLine keptLine hlatest rfl) (by decide)

end ArchiveLedger.Annex
