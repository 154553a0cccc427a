import ArchiveLedger.Journal.Binding
import ArchiveLedger.Journal.Union

/-!
# Trees of commits

What `v2_store.rs` writes to a canonical tree: one appended batch (`appendSegment`), and the union of
two trees (`uniteTrees`), which is `merge_immutable_tree` with the frontier that succeeds both
heads.  Only the head is ever replaced.  So each new tree keeps all other files of the trees it
comes from, and its head extends theirs (`follows_append`, `follows_unite`).
-/

namespace ArchiveLedger

open Outcome Transition SortedMap

/-! ### Files -/

def headPath : String := "frontiers/v2/HEAD"

/-- `write_new_synced`: a file that does not exist yet. -/
def EventTree.writeNew (tree : EventTree) (path : String) (bytes : Bytes) : StoreResult EventTree := do
  require (tree.file? path).isNone (.io "create immutable file" path)
  .ok { tree with files := tree.files ++ [(path, bytes)] }

/-- `replace_synced`. -/
def EventTree.replace (tree : EventTree) (path : String) (bytes : Bytes) : EventTree :=
  { tree with files := (tree.files.filter fun f => f.1 ≠ path) ++ [(path, bytes)] }

/-- The head of a tree is one hash and a newline. -/
def EventTree.setHead (tree : EventTree) (hash : String) : EventTree :=
  tree.replace headPath (utf8 hash ++ [10])

/-- The second path lies in the first as a directory. -/
def isDirectoryOf (directory path : String) : Bool := (stripPrefix (directory ++ "/") path).isSome

def typeConflict (path : String) : V2StoreError :=
  .invalid ("canonical synchronization path type conflicts at " ++ path)

def differsBetweenPeers (path : String) : V2StoreError :=
  .invalid ("immutable canonical path differs between peers: " ++ path)

/-- One file of `merge_immutable_directory`; the directories above it are made on the way. -/
def mergeFile (target : EventTree) (file : String × Bytes) : StoreResult EventTree :=
  if file.1 = headPath then .ok target
  else
    match target.files.find? fun f => isDirectoryOf f.1 file.1 with
    | some f => .error (typeConflict f.1)
    | none =>
        match target.file? file.1 with
        | some bytes => do
            require (bytes = file.2) (differsBetweenPeers file.1)
            .ok target
        | none => do
            require (¬ (target.files.any (fun f => isDirectoryOf file.1 f.1) ∨ file.1 ∈ target.emptyDirectories))
              (differsBetweenPeers file.1)
            .ok { target with files := target.files ++ [file] }

/-- `merge_immutable_tree`.  The order in which a directory is read decides nothing but which of
several conflicts is reported.  A commit has no empty directories. -/
def mergeImmutableTree (source target : EventTree) : StoreResult EventTree :=
  commitAll mergeFile target source.files

variable (R : StoreRuntime)

/-- `write_frontier_idempotent`. -/
def writeFrontierIdempotent (tree : EventTree) (frontier : CausalFrontier) : StoreResult EventTree := do
  let hash ← mapError .frontier (frontier.frontierHash R.blake3 R.writeFrontier)
  let path ← frontierPath hash
  let bytes ← mapError .frontier (frontier.canonicalBytes R.writeFrontier)
  match tree.file? path with
  | some existing => do
      require (existing = bytes) (.invalid "frontier hash path contains different bytes")
      .ok tree
  | none => tree.writeNew path bytes

/-- The tree of a union commit, made in a worktree of the local commit. -/
def uniteTrees (left right : VerifiedV2Archive) (leftTree rightTree : EventTree) : StoreResult EventTree := do
  let merged ← mergeImmutableTree rightTree leftTree
  let frontier ← unionFrontier R left right
  let tree ← writeFrontierIdempotent R merged frontier
  let hash ← mapError .frontier (frontier.frontierHash R.blake3 R.writeFrontier)
  .ok (tree.setHead hash)

/-- What an append has written beside the head: the segment of one batch, of a start, some chunks
and a completion, with its manifest. -/
structure AppendedSegment where
  originId : String
  chunks : Nat
  segment : Bytes
  manifest : Bytes
  lastRecordHash : String
deriving DecidableEq, Repr

/-- The frontier after an append. -/
def appendedFrontier (trust : TrustRoot) (base : CausalFrontier) (tail : OriginFrontier) : CausalFrontier where
  v := frontierVersion
  archiveId := trust.genesis.body.archiveId
  genesisHash := trust.genesisHash
  origins := put OriginFrontier.key base.origins tail
  previousFrontiers := [trust.acceptedFrontierHash]
  itemProjectionVersion := base.itemProjectionVersion

/-- The files that `append_batch_locked` writes to a tree, after those of an append that was never
published were moved away.  The frontier that they succeed was read before, from `verified`. -/
def appendSegment (verified tree : EventTree) (a : AppendedSegment) : StoreResult EventTree := do
  let trust ← readTrustRoot R verified
  let base ← readFrontier R verified trust trust.acceptedFrontierHash
  let firstSeq := ((base.origin? a.originId).map OriginFrontier.seq).getD 0 + 1
  let tail : OriginFrontier := ⟨a.originId, firstSeq + a.chunks + 1, a.lastRecordHash, blake3Id R a.manifest⟩
  let tree ← tree.writeNew (segmentRelativePath a.originId firstSeq) a.segment
  let tree ← tree.writeNew (manifestRelativePath a.originId firstSeq) a.manifest
  let successor := appendedFrontier trust base tail
  let hash ← mapError .frontier (successor.frontierHash R.blake3 R.writeFrontier)
  let path ← frontierPath hash
  let bytes ← mapError .frontier (successor.canonicalBytes R.writeFrontier)
  let tree ← tree.writeNew path bytes
  .ok (tree.setHead hash)

/-! ### What a tree holds -/

section

variable {R} {tree out : EventTree} {path : String} {bytes : Bytes}

theorem file?_append (tree : EventTree) (file : String × Bytes) (other : String) :
    ({ tree with files := tree.files ++ [file] } : EventTree).file? other =
      (tree.file? other).or (if file.1 = other then some file.2 else none) := by
  unfold EventTree.file?
  rw [List.find?_append]
  cases tree.files.find? fun f => f.1 = other with
  | some f => rfl
  | none => by_cases h : file.1 = other <;> simp [h]

theorem file?_replace (other : String) :
    (tree.replace path bytes).file? other = if path = other then some bytes else tree.file? other := by
  let rest : EventTree := { tree with files := tree.files.filter fun f => f.1 ≠ path }
  have hreplace : (tree.replace path bytes).file? other =
      (rest.file? other).or (if path = other then some bytes else none) := file?_append rest (path, bytes) other
  rw [hreplace]
  by_cases h : path = other
  · have hnone : rest.file? other = none := by
      apply Option.map_eq_none_iff.mpr
      apply List.find?_eq_none.mpr
      intro f hf heq
      have hne := (List.mem_filter.mp hf).2
      rw [decide_eq_true_eq] at heq hne
      exact hne (heq.trans h.symm)
    rw [hnone, if_pos h, if_pos h]
    rfl
  · have hfind : rest.file? other = tree.file? other := by
      show Option.map _ (List.find? _ (List.filter _ _)) = _
      rw [List.find?_filter]
      apply congrArg (Option.map Prod.snd)
      refine congrFun (congrArg List.find? (funext fun f => ?_)) tree.files
      by_cases hf : f.1 = other
      · simp [hf, Ne.symm h]
      · simp [hf]
    rw [hfind, if_neg h, if_neg h, Option.or_none]

/-- What is there stays. -/
def EventTree.Keeps (tree out : EventTree) : Prop :=
  ∀ path bytes, path ≠ headPath → tree.file? path = some bytes → out.file? path = some bytes

theorem EventTree.Keeps.refl (tree : EventTree) : tree.Keeps tree := fun _ _ _ h => h

theorem EventTree.Keeps.trans {mid : EventTree} (h : tree.Keeps mid) (h' : mid.Keeps out) : tree.Keeps out :=
  fun path bytes hne hfile => h' path bytes hne (h path bytes hne hfile)

theorem keeps_append (tree : EventTree) (file : String × Bytes) :
    tree.Keeps { tree with files := tree.files ++ [file] } := by
  intro other content _ hfile
  rw [file?_append, hfile]
  rfl

theorem writeNew_eq_ok : tree.writeNew path bytes = .ok out ↔
    tree.file? path = none ∧ out = { tree with files := tree.files ++ [(path, bytes)] } := by
  unfold EventTree.writeNew
  rw [bind_eq_ok]
  constructor
  · rintro ⟨_, hfree, h⟩
    cases h
    rw [require_eq_ok, Option.isNone_iff_eq_none] at hfree
    exact ⟨hfree, rfl⟩
  · rintro ⟨hfree, rfl⟩
    exact ⟨(), require_eq_ok.mpr (Option.isNone_iff_eq_none.mpr hfree), rfl⟩

theorem keeps_writeNew (h : tree.writeNew path bytes = .ok out) : tree.Keeps out := by
  obtain ⟨-, rfl⟩ := writeNew_eq_ok.mp h
  exact keeps_append _ _

theorem file?_writeNew (h : tree.writeNew path bytes = .ok out) : out.file? path = some bytes := by
  obtain ⟨hnone, rfl⟩ := writeNew_eq_ok.mp h
  rw [file?_append, hnone]
  simp

theorem keeps_setHead (tree : EventTree) (hash : String) : tree.Keeps (tree.setHead hash) := by
  intro path bytes hne hfile
  rw [EventTree.setHead, file?_replace, if_neg (Ne.symm hne), hfile]

theorem file?_setHead (hash : String) : (tree.setHead hash).file? headPath = some (utf8 hash ++ [10]) := by
  rw [EventTree.setHead, file?_replace, if_pos rfl]

/-! ### Merging -/

theorem mergeFile_keeps {file : String × Bytes} (h : mergeFile tree file = .ok out) :
    tree.Keeps out ∧ (file.1 ≠ headPath → out.file? file.1 = some file.2) := by
  unfold mergeFile at h
  split at h
  · rename_i hhead
    cases h
    exact ⟨.refl _, fun hne => absurd hhead hne⟩
  · split at h
    · cases h
    · split at h
      · rename_i bytes hfile
        obtain ⟨_, hsame, h⟩ := bind_eq_ok.mp h
        cases h
        rw [require_eq_ok] at hsame
        exact ⟨.refl _, fun _ => hsame ▸ hfile⟩
      · rename_i hnone
        obtain ⟨_, -, h⟩ := bind_eq_ok.mp h
        cases h
        refine ⟨keeps_append _ _, fun _ => ?_⟩
        rw [file?_append, hnone]
        simp

/-- A merge keeps the files of both trees. -/
theorem mergeFiles_keeps {files : List (String × Bytes)} (h : commitAll mergeFile tree files = .ok out) :
    tree.Keeps out ∧ ∀ file ∈ files, file.1 ≠ headPath → out.file? file.1 = some file.2 := by
  induction files generalizing tree with
  | nil =>
    cases h
    exact ⟨.refl _, fun _ hf => absurd hf List.not_mem_nil⟩
  | cons file files ih =>
    obtain ⟨mid, hmid, hrest⟩ := (commitAll_cons _).mp h
    obtain ⟨hkeeps, hfile⟩ := mergeFile_keeps hmid
    obtain ⟨hkeeps', hfiles⟩ := ih hrest
    refine ⟨hkeeps.trans hkeeps', List.forall_mem_cons.mpr ⟨fun hne => ?_, hfiles⟩⟩
    exact hkeeps' _ _ hne (hfile hne)

theorem mergeImmutableTree_keeps {source : EventTree} (h : mergeImmutableTree source tree = .ok out) :
    tree.Keeps out ∧ source.Keeps out := by
  obtain ⟨hkeeps, hfiles⟩ := mergeFiles_keeps h
  refine ⟨hkeeps, fun path bytes hne hfile => ?_⟩
  obtain ⟨file, hfind, rfl⟩ := Option.map_eq_some_iff.mp hfile
  have hpath : file.1 = path := by simpa using List.find?_some hfind
  subst hpath
  exact hfiles file (List.mem_of_find?_eq_some hfind) hne

/-! ### The accepted frontier -/

/-- The head of a tree names this frontier, and its text is there. -/
structure Accepts (R : StoreRuntime) (tree : EventTree) (f : CausalFrontier) (hash path : String) : Prop where
  named : f.frontierHash R.blake3 R.writeFrontier = .ok hash
  placed : frontierPath hash = .ok path
  head : tree.file? headPath = some (utf8 hash ++ [10])
  text : tree.file? path = some (R.writeFrontier f)

theorem Accepts.valid {f : CausalFrontier} {hash : String} (h : Accepts R tree f hash path) : f.Valid :=
  (CausalFrontier.frontierHash_eq_ok.mp h.named).1

/-- With texts that tell frontiers apart a tree accepts one frontier. -/
theorem Accepts.unique (hwrite : Function.Injective R.writeFrontier) {f g : CausalFrontier} {hash hash' path' : String}
    (h : Accepts R tree f hash path) (h' : Accepts R tree g hash' path') : f = g := by
  have hhash : hash = hash' := by
    have hbytes := h.head.symm.trans h'.head
    exact utf8_injective (List.append_cancel_right (Option.some.inj hbytes))
  subst hhash
  have hpath : path = path' := Except.ok.inj (h.placed.symm.trans h'.placed)
  subst hpath
  exact hwrite (Option.some.inj (h.text.symm.trans h'.text))

theorem frontierPath_ne_head {hash : String} (h : frontierPath hash = .ok path) : path ≠ headPath := by
  obtain ⟨hex, -, h⟩ := bind_eq_ok.mp h
  obtain ⟨_, -, h⟩ := bind_eq_ok.mp h
  cases h
  intro heq
  have hchar := congrArg (fun s : String => s.toList[13]?) heq
  simp [headPath] at hchar

/-- The frontier that a verification reads first. -/
theorem accepts_of_read {trust : TrustRoot} {f : CausalFrontier} (htrust : readTrustRoot R tree = .ok trust)
    (hread : readFrontier R tree trust trust.acceptedFrontierHash = .ok f) :
    ∃ path, Accepts R tree f trust.acceptedFrontierHash path := by
  simp only [readTrustRoot, readFile, bind_eq_ok, okOr_eq_ok, mapError_eq_ok, require_eq_ok, Except.ok.injEq] at htrust
  obtain ⟨_, -, _, -, _, -, _, -, _, -, _, -, head, hhead, _, -, _, -, _, hbytes, _, -, rfl⟩ := htrust
  simp only [readFrontier, readFile, CausalFrontier.canonicalBytes, CausalFrontier.validate_iff, bind_eq_ok,
    okOr_eq_ok, mapError_eq_ok, require_eq_ok, Except.ok.injEq] at hread
  obtain ⟨path, hpath, bytes, hfile, g, -, _, ⟨_, hvalid, rfl⟩, name, hname, _, ⟨hcanonical, hhash⟩, _, -, rfl⟩ := hread
  refine ⟨path, ?_, hpath, ?_, hcanonical ▸ hfile⟩
  · rw [hname, hhash]
  · rw [← hbytes]
    exact hhead

theorem accepts_of_visit {archive : VerifiedV2Archive} {yielded : List VerifiedV2Record}
    (h : visitVerified R tree = .ok (archive, yielded)) :
    ∃ path, Accepts R tree archive.acceptedFrontier archive.acceptedFrontierHash path := by
  obtain ⟨trust, accepted, frontiers, _, _, _, _, _, hopened, -, -, -, -, -, -, hout⟩ := visitVerified_eq_ok.mp h
  cases hout
  exact accepts_of_read hopened.root ((loadFrontierGraph_below hopened.graph hopened.head).1 _ _ hopened.head)

/-- A tree that comes after another: it keeps its files, and its head extends the other's. -/
def Follows (R : StoreRuntime) (tree out : EventTree) : Prop :=
  tree.Keeps out ∧ ∀ f hash path, Accepts R tree f hash path → ∃ g hash path, Accepts R out g hash path ∧ f.Extends g

theorem Follows.refl (tree : EventTree) : Follows R tree tree :=
  ⟨.refl _, fun f hash path h => ⟨f, hash, path, h, .refl h.valid⟩⟩

theorem Follows.trans {mid : EventTree} (h : Follows R tree mid) (h' : Follows R mid out) : Follows R tree out := by
  refine ⟨h.1.trans h'.1, fun f hash path hf => ?_⟩
  obtain ⟨g, hash, path, hg, hfg⟩ := h.2 f hash path hf
  obtain ⟨k, hash, path, hk, hgk⟩ := h'.2 g hash path hg
  exact ⟨k, hash, path, hk, hfg.trans hgk⟩

/-- A tree whose new head is a frontier that extends the old one. -/
theorem follows_setHead (hwrite : Function.Injective R.writeFrontier) {f g : CausalFrontier}
    {hash hash' path' : String} {mid : EventTree} (hf : Accepts R tree f hash path) (hextends : f.Extends g)
    (hkeeps : tree.Keeps mid) (hname : g.frontierHash R.blake3 R.writeFrontier = .ok hash')
    (hpath : frontierPath hash' = .ok path') (htext : mid.file? path' = some (R.writeFrontier g)) :
    Follows R tree (mid.setHead hash') := by
  refine ⟨hkeeps.trans (keeps_setHead _ _), fun f' hash'' path'' hf' => ?_⟩
  obtain rfl := hf.unique hwrite hf'
  refine ⟨g, hash', path', ⟨hname, hpath, file?_setHead _, ?_⟩, hextends⟩
  exact keeps_setHead _ _ _ _ (frontierPath_ne_head hpath) htext

/-- The tail of an append is later than the one it replaces. -/
theorem extends_put {base : CausalFrontier} {tail : OriginFrontier} {f : CausalFrontier} (hbase : base.Valid)
    (hlater : ∀ o, base.origin? tail.originId = some o → o.seq < tail.seq)
    (hf : f.origins = put OriginFrontier.key base.origins tail) : base.Extends f := by
  intro o ho
  have hself := CausalFrontier.origin?_of_mem (CausalFrontier.validate_nodup (CausalFrontier.validate_iff.mpr hbase)) ho
  have hlook : f.origin? o.originId = look OriginFrontier.key (put OriginFrontier.key base.origins tail) (textRank o.originId) := by
    rw [← CausalFrontier.look_eq_origin?, hf]
  rw [look_put hbase.sorted, CausalFrontier.look_eq_origin?] at hlook
  by_cases hid : tail.originId = o.originId
  · have hkey : tail.key = textRank o.originId := congrArg textRank hid
    have hseq := hlater o (hid ▸ hself)
    rw [if_pos hkey] at hlook
    exact ⟨tail, hlook, hseq.le, fun heq => by omega⟩
  · have hkey : ¬ tail.key = textRank o.originId := fun hkey => hid (textRank_injective hkey)
    rw [if_neg hkey] at hlook
    exact ⟨o, hlook.trans hself, le_rfl, fun _ => rfl⟩

/-- An append to the tree that was verified follows it. -/
theorem follows_append (hwrite : Function.Injective R.writeFrontier) {a : AppendedSegment}
    (h : appendSegment R tree tree a = .ok out) : Follows R tree out := by
  obtain ⟨trust, htrust, h⟩ := bind_eq_ok.mp h
  obtain ⟨base, hbase, h⟩ := bind_eq_ok.mp h
  obtain ⟨withSegment, hsegment, h⟩ := bind_eq_ok.mp h
  obtain ⟨withManifest, hmanifest, h⟩ := bind_eq_ok.mp h
  obtain ⟨hash, hhash, h⟩ := bind_eq_ok.mp h
  obtain ⟨path, hpath, h⟩ := bind_eq_ok.mp h
  obtain ⟨bytes, hbytes, h⟩ := bind_eq_ok.mp h
  obtain ⟨withFrontier, hfrontier, h⟩ := bind_eq_ok.mp h
  cases h
  rw [mapError_eq_ok] at hhash hbytes
  obtain ⟨_, -, hbytes⟩ := bind_eq_ok.mp hbytes
  cases hbytes
  obtain ⟨basePath, haccepts⟩ := accepts_of_read htrust hbase
  refine follows_setHead hwrite haccepts ?_
    ((keeps_writeNew hsegment).trans ((keeps_writeNew hmanifest).trans (keeps_writeNew hfrontier))) hhash hpath
    (file?_writeNew hfrontier)
  refine extends_put haccepts.valid (fun o ho => ?_) rfl
  change base.origin? a.originId = some o at ho
  rw [ho]
  show o.seq < o.seq + 1 + a.chunks + 1
  omega

/-- A union that is not refused extends both heads. -/
theorem extends_unionFrontier {left right : VerifiedV2Archive} {u : CausalFrontier}
    (hleft : left.acceptedFrontier.Valid) (hright : right.acceptedFrontier.Valid)
    (h : unionFrontier R left right = .ok u) :
    left.acceptedFrontier.Extends u ∧ right.acceptedFrontier.Extends u := by
  obtain ⟨_, -, h⟩ := bind_eq_ok.mp h
  obtain ⟨origins, horigins, h⟩ := bind_eq_ok.mp h
  cases h
  rw [unite_origins hleft.sorted] at horigins
  by_cases hfits : ∀ o ∈ right.acceptedFrontier.origins, Fits left.acceptedFrontier.origins o
  · obtain ⟨united, hunited, -, hlook⟩ := uniteAll_fits hleft.sorted hright.sorted hfits
    cases horigins.symm.trans hunited
    obtain ⟨united', hunited', -, hlook'⟩ := uniteAll_fits hright.sorted hleft.sorted
      (fits_comm hleft.sorted hright.sorted hfits)
    have hcomm := uniteAll_comm hleft.sorted hright.sorted
    rw [horigins, hunited'] at hcomm
    cases hcomm
    constructor
    · refine Peers.extends_of_later hleft (fits_comm hleft.sorted hright.sorted hfits) fun id => ?_
      rw [← CausalFrontier.look_eq_origin?, ← CausalFrontier.look_eq_origin?, ← CausalFrontier.look_eq_origin?]
      exact hlook' _
    · refine Peers.extends_of_later hright hfits fun id => ?_
      rw [← CausalFrontier.look_eq_origin?, ← CausalFrontier.look_eq_origin?, ← CausalFrontier.look_eq_origin?]
      exact hlook _
  · obtain ⟨before, o, after, heq, hbefore, hunfit⟩ := exists_first_unfit hfits
    rw [heq, uniteAll_unfit hleft.sorted (heq ▸ hright.sorted) hbefore hunfit] at horigins
    cases horigins

theorem writeFrontierIdempotent_keeps {u : CausalFrontier} {hash : String}
    (h : writeFrontierIdempotent R tree u = .ok out) (hname : u.frontierHash R.blake3 R.writeFrontier = .ok hash) :
    ∃ path, frontierPath hash = .ok path ∧ tree.Keeps out ∧ out.file? path = some (R.writeFrontier u) := by
  obtain ⟨hash', hhash', h⟩ := bind_eq_ok.mp h
  rw [mapError_eq_ok, hname] at hhash'
  cases hhash'
  obtain ⟨path, hpath, h⟩ := bind_eq_ok.mp h
  obtain ⟨bytes, hbytes, h⟩ := bind_eq_ok.mp h
  rw [mapError_eq_ok] at hbytes
  obtain ⟨_, -, hbytes⟩ := bind_eq_ok.mp hbytes
  cases hbytes
  refine ⟨path, hpath, ?_⟩
  split at h
  · rename_i existing hexisting
    obtain ⟨_, hsame, h⟩ := bind_eq_ok.mp h
    cases h
    rw [require_eq_ok] at hsame
    exact ⟨.refl _, hsame ▸ hexisting⟩
  · exact ⟨keeps_writeNew h, file?_writeNew h⟩

/-- A union follows both of the trees it was made of. -/
theorem follows_unite (hwrite : Function.Injective R.writeFrontier) {left right : VerifiedV2Archive}
    {leftTree rightTree : EventTree} {leftHash leftPath rightHash rightPath : String}
    (hleft : Accepts R leftTree left.acceptedFrontier leftHash leftPath)
    (hright : Accepts R rightTree right.acceptedFrontier rightHash rightPath)
    (h : uniteTrees R left right leftTree rightTree = .ok out) :
    Follows R leftTree out ∧ Follows R rightTree out := by
  obtain ⟨merged, hmerged, h⟩ := bind_eq_ok.mp h
  obtain ⟨u, hu, h⟩ := bind_eq_ok.mp h
  obtain ⟨written, hwritten, h⟩ := bind_eq_ok.mp h
  obtain ⟨hash, hhash, h⟩ := bind_eq_ok.mp h
  cases h
  rw [mapError_eq_ok] at hhash
  obtain ⟨hkeeps, hkeeps'⟩ := mergeImmutableTree_keeps hmerged
  obtain ⟨hextends, hextends'⟩ := extends_unionFrontier hleft.valid hright.valid hu
  obtain ⟨path, hpath, hmore, htext⟩ := writeFrontierIdempotent_keeps hwritten hhash
  exact ⟨follows_setHead hwrite hleft hextends (hkeeps.trans hmore) hhash hpath htext,
    follows_setHead hwrite hright hextends' (hkeeps'.trans hmore) hhash hpath htext⟩

end

end ArchiveLedger
