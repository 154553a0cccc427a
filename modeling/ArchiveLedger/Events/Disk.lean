import ArchiveLedger.Events.Scans
import ArchiveLedger.Events.Writer

/-!
# What the files hold

The directory of a stream holds closed segments and perhaps an open one, of which it has some lines and a rest
without an end (`Holds`).  `Holds.create`, `Holds.write` and `Holds.close` say what the three writes of the
writer make of it.  A directory is intact when the rest, if there is one, is an initial part of the line that was
being written (`Intact`): so are all the directories that a stopped writer leaves.
-/

namespace ArchiveLedger.Events

open CrashLogic HashChain Lines Outcome Transition

/-- The lines of segments. -/
def linesIn (segments : List (Nat × Bytes)) : List Bytes := segments.flatMap fun segment => linesOf segment.2

/-- The lines of a directory. -/
def storedLines (dir : EventDir) : List Bytes := linesIn dir.segments

/-- The sequence after closed segments. -/
def firstOf (closed : List (Nat × Bytes)) : Nat := 1 + (linesIn closed).length

/-- The lines of an open segment and what stands behind them. -/
structure OpenText where
  lines : List Bytes
  rest : Bytes

def OpenText.bytes (o : OpenText) : Bytes := join 10 o.lines ++ o.rest

/-- All lines of closed segments and an open one. -/
def allLines (closed : List (Nat × Bytes)) (opened : Option OpenText) : List Bytes :=
  linesIn closed ++ (opened.map OpenText.lines).getD []

section

variable (R : EventRuntime) (config : EventStoreConfig)

/-- serde reads what it wrote, and no part of it that stops earlier. -/
structure WritesBack (e : EventEnvelope) : Prop where
  line : 10 ∉ R.writeEnvelope e
  reads : R.readEnvelope (R.writeEnvelope e) = .ok e
  value : ∃ v, R.readValue (R.writeEnvelope e) = some v ∧ R.envelopeOfValue v = .ok e
  part : ∀ text, text <+: R.writeEnvelope e → text ≠ R.writeEnvelope e → R.readValue text = none

/-- Segments that are all closed by their manifests. -/
def Closed (dir : EventDir) : Nat → Option String → List (Nat × Bytes) → Prop
  | _, _, [] => True
  | seq, previous, segment :: rest =>
      segment.1 = seq ∧
        (∃ file m, dir.manifest? seq = some file ∧ R.readManifest file = .ok m ∧ Closes R config segment.2 seq previous m) ∧
        Closed dir (seq + (linesOf segment.2).length) (tip (eventHash R) previous (linesOf segment.2)) rest

structure Holds (dir : EventDir) (closed : List (Nat × Bytes)) (opened : Option OpenText) : Prop where
  segments : dir.segments = closed ++ (opened.map fun o => (firstOf closed, o.bytes)).toList
  manifests : dir.manifests.map Prod.fst = closed.map Prod.fst
  row : Closed R config dir 1 none closed
  chain : ∀ o, opened = some o → Chain R config (firstOf closed) (tip (eventHash R) none (linesIn closed)) o.lines
  text : ∀ o, opened = some o → (∀ line ∈ o.lines, 10 ∉ line) ∧ 10 ∉ o.rest
  names : 1 + (allLines closed opened).length ≤ canonicalNames
  name : ∀ o, opened = some o → firstOf closed < canonicalNames

variable {R config}

theorem Closes.chain {bytes : Bytes} {first : Nat} {previous : Option String} {m : SegmentManifest}
    (h : Closes R config bytes first previous m) : Chain R config first previous (linesOf bytes) ∧ (cut 10 bytes).2 = [] := by
  obtain ⟨scan, hscan, -⟩ := h.scan
  exact ⟨(scan_spec hscan).chain, (scan_spec hscan).whole⟩

/-! ### Closed segments -/

theorem linesIn_append (segments more : List (Nat × Bytes)) : linesIn (segments ++ more) = linesIn segments ++ linesIn more :=
  List.flatMap_append

theorem linesIn_cons (segment : Nat × Bytes) (rest : List (Nat × Bytes)) :
    linesIn (segment :: rest) = linesOf segment.2 ++ linesIn rest := rfl

theorem linesIn_singleton (segment : Nat × Bytes) : linesIn [segment] = linesOf segment.2 := List.append_nil _

/-- Other manifests do not matter. -/
theorem Closed.mono {dir dir' : EventDir} {seq : Nat} {previous : Option String} {segments : List (Nat × Bytes)}
    (h : Closed R config dir seq previous segments)
    (hfiles : ∀ segment ∈ segments, ∀ file, dir.manifest? segment.1 = some file → dir'.manifest? segment.1 = some file) :
    Closed R config dir' seq previous segments := by
  induction segments generalizing seq previous with
  | nil => trivial
  | cons segment rest ih =>
    obtain ⟨rfl, ⟨file, m, hfile, hread, hcloses⟩, hrest⟩ := h
    exact ⟨rfl, ⟨file, m, hfiles segment List.mem_cons_self file hfile, hread, hcloses⟩,
      ih hrest fun other hother => hfiles other (List.mem_cons_of_mem _ hother)⟩

theorem closed_append {dir : EventDir} {seq : Nat} {previous : Option String} {segments more : List (Nat × Bytes)} :
    Closed R config dir seq previous (segments ++ more) ↔ Closed R config dir seq previous segments ∧
      Closed R config dir (seq + (linesIn segments).length) (tip (eventHash R) previous (linesIn segments)) more := by
  induction segments generalizing seq previous with
  | nil => exact ⟨fun h => ⟨trivial, h⟩, fun h => h.2⟩
  | cons segment rest ih =>
    rw [List.cons_append, Closed, Closed, ih, linesIn_cons, List.length_append, tip_append, ← Nat.add_assoc,
      and_assoc, and_assoc]

/-- A closed segment has lines, so the names go up. -/
theorem Closed.keys {dir : EventDir} {seq : Nat} {previous : Option String} {segments : List (Nat × Bytes)}
    (h : Closed R config dir seq previous segments) :
    ∀ segment ∈ segments, seq ≤ segment.1 ∧ segment.1 < seq + (linesIn segments).length := by
  induction segments generalizing seq previous with
  | nil => exact nofun
  | cons segment rest ih =>
    obtain ⟨rfl, ⟨file, m, -, -, hcloses⟩, hrest⟩ := h
    have hpos := List.length_pos_iff.mpr hcloses.last.1
    intro other hother
    rw [linesIn_cons, List.length_append]
    rcases List.mem_cons.mp hother with rfl | hother
    · omega
    · have := ih hrest other hother
      omega

/-! ### What follows for readers -/

theorem Holds.closed_lt {dir : EventDir} {closed : List (Nat × Bytes)} {opened : Option OpenText}
    (h : Holds R config dir closed opened) : ∀ segment ∈ closed, segment.1 < firstOf closed :=
  fun segment hsegment => (h.row.keys segment hsegment).2

theorem OpenText.cut_bytes {o : OpenText} (h : (∀ line ∈ o.lines, 10 ∉ line) ∧ 10 ∉ o.rest) :
    cut 10 o.bytes = (o.lines, o.rest) := cut_join h.1 h.2

theorem Holds.storedLines {dir : EventDir} {closed : List (Nat × Bytes)} {opened : Option OpenText}
    (h : Holds R config dir closed opened) : storedLines dir = allLines closed opened := by
  unfold Events.storedLines allLines
  rw [h.segments, linesIn_append]
  cases hopened : opened with
  | none => rfl
  | some o =>
    have hcut := OpenText.cut_bytes (h.text o hopened)
    show linesIn closed ++ linesIn [(firstOf closed, o.bytes)] = _
    rw [linesIn_singleton]
    show _ ++ (Lines.cut 10 o.bytes).1 = _
    rw [hcut]
    rfl

theorem Holds.manifest_lt {dir : EventDir} {closed : List (Nat × Bytes)} {opened : Option OpenText}
    (h : Holds R config dir closed opened) : ∀ file ∈ dir.manifests, file.1 < firstOf closed := by
  intro file hfile
  have hkey : file.1 ∈ closed.map Prod.fst := by
    rw [← h.manifests]
    exact List.mem_map_of_mem hfile
  obtain ⟨segment, hsegment, hsame⟩ := List.mem_map.mp hkey
  rw [← hsame]
  exact h.closed_lt segment hsegment

theorem Holds.no_manifest {dir : EventDir} {closed : List (Nat × Bytes)} {opened : Option OpenText}
    (h : Holds R config dir closed opened) : dir.manifest? (firstOf closed) = none := by
  unfold EventDir.manifest?
  rw [Option.map_eq_none_iff, SortedMap.look_eq_none]
  exact fun file hfile => (h.manifest_lt file hfile).ne

theorem Holds.checkManifests {dir : EventDir} {closed : List (Nat × Bytes)} {opened : Option OpenText}
    (h : Holds R config dir closed opened) : checkManifests dir = .ok () := by
  have hnames := h.names
  have hlength : (linesIn closed).length ≤ (allLines closed opened).length := by
    rw [allLines, List.length_append]
    omega
  have hclosed : ∀ segment ∈ closed, segment.1 < canonicalNames := by
    intro segment hsegment
    have hlt := h.closed_lt segment hsegment
    unfold firstOf at hlt
    omega
  have hmanifests : ∀ file ∈ dir.manifests, ∃ segment ∈ closed, segment.1 = file.1 := by
    intro file hfile
    have hkey : file.1 ∈ closed.map Prod.fst := by
      rw [← h.manifests]
      exact List.mem_map_of_mem hfile
    exact List.mem_map.mp hkey
  unfold Events.checkManifests listCanonicalFiles
  simp only [bind_eq_ok, forM_eq_ok, require_eq_ok]
  refine ⟨(), fun segment hsegment => ?_, (), fun file hfile => ?_, fun file hfile => ?_⟩
  · rw [h.segments] at hsegment
    rcases List.mem_append.mp hsegment with hsegment | hsegment
    · exact hclosed segment hsegment
    · obtain ⟨o, ho, hsame⟩ := Option.map_eq_some_iff.mp (Option.mem_toList.mp hsegment)
      rw [← hsame]
      exact h.name o ho
  · obtain ⟨segment, hsegment, hsame⟩ := hmanifests file hfile
    rw [← hsame]
    exact hclosed segment hsegment
  · obtain ⟨segment, hsegment, hsame⟩ := hmanifests file hfile
    cases hlook : SortedMap.look Prod.fst dir.segments file.1 with
    | some a => rfl
    | none =>
      rw [SortedMap.look_eq_none] at hlook
      refine absurd hsame (hlook segment ?_)
      rw [h.segments]
      exact List.mem_append_left _ hsegment

theorem stream_of_closed {dir : EventDir} {seq : Nat} {previous : Option String} {closed rest : List (Nat × Bytes)}
    (h : Closed R config dir seq previous closed) (hmax : seq + (linesIn closed).length ≤ u64Max)
    (hrest : Stream R config dir (seq + (linesIn closed).length) (tip (eventHash R) previous (linesIn closed)) rest) :
    Stream R config dir seq previous (closed ++ rest) := by
  induction closed generalizing seq previous with
  | nil => exact hrest
  | cons segment closed ih =>
    obtain ⟨rfl, ⟨file, m, hfile, hread, hcloses⟩, hclosed⟩ := h
    rw [linesIn_cons, List.length_append, ← Nat.add_assoc] at hmax hrest
    rw [tip_append] at hrest
    refine ⟨rfl, hcloses.chain.1, fun _ => by omega, ?_, ih hclosed hmax hrest⟩
    rw [hfile]
    exact ⟨m, hread, hcloses⟩

theorem canonicalNames_le : canonicalNames ≤ u64Max := by decide

theorem Holds.stream {dir : EventDir} {closed : List (Nat × Bytes)} {opened : Option OpenText}
    (h : Holds R config dir closed opened) : Stream R config dir 1 none dir.segments := by
  have hnames := h.names
  have hmax := canonicalNames_le
  rw [allLines, List.length_append] at hnames
  rw [h.segments]
  refine stream_of_closed h.row (by omega) ?_
  cases hopened : opened with
  | none => trivial
  | some o =>
    have hcut := OpenText.cut_bytes (h.text o hopened)
    have hlines : linesOf o.bytes = o.lines := congrArg Prod.fst hcut
    rw [hopened] at hnames
    have hlength : ((some o).map OpenText.lines).getD [] = o.lines := rfl
    rw [hlength] at hnames
    refine ⟨rfl, ?_, fun _ => ?_, ?_, trivial⟩
    · show Chain R config _ _ (linesOf o.bytes)
      rw [hlines]
      exact h.chain o hopened
    · show 1 + (linesIn closed).length + (linesOf o.bytes).length ≤ u64Max
      rw [hlines]
      omega
    · have hnone := h.no_manifest
      unfold firstOf at hnone
      rw [hnone]

/-- Without a rest the store verifies. -/
theorem Holds.verifies {dir : EventDir} {closed : List (Nat × Bytes)} {opened : Option OpenText}
    (h : Holds R config dir closed opened) (hwhole : ∀ o, opened = some o → o.rest = []) :
    ∃ v, verifyLocked R config dir = .ok v := by
  refine verifies_iff.mpr ⟨h.checkManifests, h.stream, fun segment hsegment => ?_⟩
  rw [h.segments] at hsegment
  rcases List.mem_append.mp hsegment with hsegment | hsegment
  · have hclosed := h.row
    obtain ⟨before, after, rfl⟩ := List.append_of_mem hsegment
    obtain ⟨-, -, ⟨file, m, -, -, hcloses⟩, -⟩ := closed_append.mp hclosed
    exact hcloses.chain.2
  · obtain ⟨o, ho, hsame⟩ := Option.map_eq_some_iff.mp (Option.mem_toList.mp hsegment)
    rw [← hsame]
    show (Lines.cut 10 o.bytes).2 = []
    rw [OpenText.cut_bytes (h.text o ho)]
    exact hwhole o ho

/-! ### The three writes -/

theorem Holds.segment? {dir : EventDir} {closed : List (Nat × Bytes)} {o : OpenText}
    (h : Holds R config dir closed (some o)) : dir.segment? (firstOf closed) = some o.bytes := by
  unfold EventDir.segment?
  rw [h.segments, SortedMap.look_append_of_ne fun segment hsegment => (h.closed_lt segment hsegment).ne]
  show (SortedMap.look Prod.fst [(firstOf closed, o.bytes)] (firstOf closed)).map Prod.snd = _
  rw [SortedMap.look_cons, if_pos rfl]
  rfl

theorem Holds.no_segment {dir : EventDir} {closed : List (Nat × Bytes)}
    (h : Holds R config dir closed none) : dir.segment? (firstOf closed) = none := by
  unfold EventDir.segment?
  rw [Option.map_eq_none_iff, SortedMap.look_eq_none, h.segments]
  intro segment hsegment
  rw [List.mem_append] at hsegment
  exact (h.closed_lt segment (hsegment.resolve_right List.not_mem_nil)).ne

theorem Holds.create {dir : EventDir} {closed : List (Nat × Bytes)} (h : Holds R config dir closed none)
    (hname : firstOf closed < canonicalNames) :
    Holds R config (dir.setSegment (firstOf closed) []) closed (some ⟨[], []⟩) where
  segments := by
    have hsegments : dir.segments = closed ++ [] := h.segments
    show SortedMap.put Prod.fst dir.segments (firstOf closed, []) = _
    rw [hsegments, SortedMap.put_append_of_lt h.closed_lt]
    rfl
  manifests := h.manifests
  row := h.row.mono fun _ _ _ hfile => hfile
  chain := fun o ho => by
    cases ho
    trivial
  text := fun o ho => by
    cases ho
    exact ⟨nofun, List.not_mem_nil⟩
  names := h.names
  name := fun _ _ => hname

theorem Holds.write {dir : EventDir} {closed : List (Nat × Bytes)} {o o' : OpenText}
    (h : Holds R config dir closed (some o))
    (hchain : Chain R config (firstOf closed) (tip (eventHash R) none (linesIn closed)) o'.lines)
    (htext : (∀ line ∈ o'.lines, 10 ∉ line) ∧ 10 ∉ o'.rest)
    (hnames : 1 + (allLines closed (some o')).length ≤ canonicalNames) :
    Holds R config (dir.setSegment (firstOf closed) o'.bytes) closed (some o') where
  segments := by
    have hsegments : dir.segments = closed ++ [(firstOf closed, o.bytes)] := h.segments
    show SortedMap.put Prod.fst dir.segments (firstOf closed, o'.bytes) = _
    rw [hsegments, SortedMap.put_append_of_lt h.closed_lt, SortedMap.put, if_neg (lt_irrefl _), if_pos rfl]
    rfl
  manifests := h.manifests
  row := h.row.mono fun _ _ _ hfile => hfile
  chain := fun p hp => by
    cases hp
    exact hchain
  text := fun p hp => by
    cases hp
    exact htext
  names := hnames
  name := fun _ _ => h.name o rfl

theorem Holds.put_manifest {dir : EventDir} {closed : List (Nat × Bytes)} {opened : Option OpenText}
    (h : Holds R config dir closed opened) (file : Bytes) :
    SortedMap.put Prod.fst dir.manifests (firstOf closed, file) = dir.manifests ++ [(firstOf closed, file)] := by
  have hput : SortedMap.put Prod.fst (dir.manifests ++ []) (firstOf closed, file) =
      dir.manifests ++ SortedMap.put Prod.fst [] (firstOf closed, file) :=
    SortedMap.put_append_of_lt h.manifest_lt []
  rwa [List.append_nil] at hput

theorem Holds.close {dir : EventDir} {closed : List (Nat × Bytes)} {o : OpenText} (h : Holds R config dir closed (some o))
    {m : SegmentManifest} {file : Bytes} (hread : R.readManifest file = .ok m)
    (hcloses : Closes R config o.bytes (firstOf closed) (tip (eventHash R) none (linesIn closed)) m) :
    Holds R config (dir.setManifest (firstOf closed) file) (closed ++ [(firstOf closed, o.bytes)]) none where
  segments := by
    rw [Option.map_none, Option.toList_none, List.append_nil]
    exact h.segments
  manifests := by
    show (SortedMap.put Prod.fst dir.manifests (firstOf closed, file)).map Prod.fst = _
    rw [h.put_manifest, List.map_append, List.map_append, h.manifests]
    rfl
  row := by
    have hput : (dir.setManifest (firstOf closed) file).manifests = dir.manifests ++ [(firstOf closed, file)] :=
      h.put_manifest file
    refine closed_append.mpr ⟨h.row.mono fun segment _ other hother => ?_, ⟨rfl, ⟨file, m, ?_, hread, hcloses⟩, trivial⟩⟩
    · obtain ⟨entry, hentry, rfl⟩ := Option.map_eq_some_iff.mp hother
      unfold EventDir.manifest?
      rw [hput, SortedMap.look_append_some hentry]
      rfl
    · have hne : ∀ other ∈ dir.manifests, other.1 ≠ 1 + (linesIn closed).length :=
        fun other hother => (h.manifest_lt other hother).ne
      unfold EventDir.manifest?
      have hlook : SortedMap.look Prod.fst [(firstOf closed, file)] (1 + (linesIn closed).length) = some (firstOf closed, file) :=
        SortedMap.look_of_mem (List.pairwise_singleton _ _) List.mem_cons_self
      rw [hput, SortedMap.look_append_of_ne hne, hlook]
      rfl
  chain := nofun
  text := nofun
  names := by
    have hlines : linesOf o.bytes = o.lines := congrArg Prod.fst (OpenText.cut_bytes (h.text o rfl))
    have hnames := h.names
    unfold allLines at hnames ⊢
    rw [linesIn_append, linesIn_singleton]
    show 1 + (linesIn closed ++ linesOf o.bytes ++ []).length ≤ _
    rw [hlines, List.append_nil]
    exact hnames
  name := nofun

/-! ### How the stream grows -/

variable (R) in
/-- The stream has more lines, and the events keep their places. -/
structure Extends (dir dir' : EventDir) (lines : List Bytes) : Prop where
  lines : Events.storedLines dir' = Events.storedLines dir ++ lines
  events : storedEvents R dir <+: storedEvents R dir'

theorem extends_refl (dir : EventDir) : Extends R dir dir [] := ⟨(List.append_nil _).symm, List.prefix_rfl⟩

theorem Extends.trans {dir dir' dir'' : EventDir} {lines more : List Bytes} (h : Extends R dir dir' lines)
    (h' : Extends R dir' dir'' more) : Extends R dir dir'' (lines ++ more) :=
  ⟨by rw [h'.lines, h.lines, List.append_assoc], h.events.trans h'.events⟩

theorem Holds.storedEvents {dir : EventDir} {closed : List (Nat × Bytes)} {opened : Option OpenText}
    (h : Holds R config dir closed opened) : storedEvents R dir =
      closed.flatMap (fun segment => positioned R segment.1 0 (linesOf segment.2)) ++
        (opened.map fun o => positioned R (firstOf closed) 0 o.lines).getD [] := by
  unfold Events.storedEvents
  rw [h.segments, List.flatMap_append]
  cases hopened : opened with
  | none => rfl
  | some o =>
    have hlines : linesOf o.bytes = o.lines := congrArg Prod.fst (OpenText.cut_bytes (h.text o hopened))
    show _ ++ (positioned R (firstOf closed) 0 (linesOf o.bytes) ++ []) = _
    rw [hlines, List.append_nil]
    rfl

theorem Holds.extends_create {dir dir' : EventDir} {closed : List (Nat × Bytes)} (h : Holds R config dir closed none)
    (h' : Holds R config dir' closed (some ⟨[], []⟩)) : Extends R dir dir' [] := by
  refine ⟨?_, ?_⟩
  · rw [h.storedLines, h'.storedLines, List.append_nil]
    rfl
  · rw [h.storedEvents, h'.storedEvents]
    exact List.prefix_rfl

theorem Holds.extends_write {dir dir' : EventDir} {closed : List (Nat × Bytes)} {o o' : OpenText}
    (h : Holds R config dir closed (some o)) (h' : Holds R config dir' closed (some o')) {lines : List Bytes}
    (hlines : o'.lines = o.lines ++ lines) : Extends R dir dir' lines := by
  refine ⟨?_, ?_⟩
  · rw [h.storedLines, h'.storedLines]
    show linesIn closed ++ o'.lines = linesIn closed ++ o.lines ++ lines
    rw [hlines, List.append_assoc]
  · rw [h.storedEvents, h'.storedEvents]
    show _ ++ positioned R (firstOf closed) 0 o.lines <+: _ ++ positioned R (firstOf closed) 0 o'.lines
    rw [hlines, positioned_append (h.chain o rfl), ← List.append_assoc]
    exact List.prefix_append _ _

end

end ArchiveLedger.Events
