import ArchiveLedger.Foundation.FileTree
import ArchiveLedger.Foundation.JsonText
import ArchiveLedger.Foundation.Outcome
import ArchiveLedger.Catalog.Snapshots

/-!
# The discovery of files

`FileDiscovery` of `discovery.rs` on a directory tree: the items it yields, in order.  A tree
is a listing whose entries hold what `file_type` and `metadata` find there; what a file or a
symlink itself holds is a parameter of the consumer.
-/

namespace ArchiveLedger.Discovery

open FileTree Outcome

abbrev Name := Bytes

/-- The components of a path below the root. -/
abbrev RelativePath := List Name

/-! ### Encoded paths -/

/-- The components joined. -/
def joinPath : RelativePath → Bytes
  | [] => []
  | [name] => name
  | name :: rest => name ++ 47 :: joinPath rest

def escapeByte (byte : UInt8) : List Char :=
  if 32 ≤ byte.toNat ∧ byte.toNat < 127 then [Char.ofNat byte.toNat]
  else ['\\', 'x', JsonText.hexDigit (byte.toNat / 16), JsonText.hexDigit (byte.toNat % 16)]

def escapeBytes (bytes : Bytes) : String := String.ofList (bytes.flatMap escapeByte)

def encodeRelativePath (path : RelativePath) : EncodedPath :=
  let bytes := joinPath path
  match String.fromUTF8? ⟨bytes.toArray⟩ with
  | some text => ⟨.utf8, bytes, text⟩
  | none => ⟨.unixBytes, bytes, escapeBytes bytes⟩

/-! ### Directory trees -/

/-- What is found at an entry that is not a directory: the entry cannot be read, its type
cannot, it is a symlink, its metadata cannot be read, it is a regular file, or none of
these. -/
inductive DirEntry (φ σ : Type)
  | unread
  | untyped
  | symlink (link : σ)
  | unmeasured
  | file (f : φ)
  | special

/-- What is found at a directory: whether `metadata` and `read_dir` succeed, its device, and
whether its snapshot is another one when its entries are exhausted. -/
structure DirectoryAttributes where
  measured : Bool
  device : Nat
  listed : Bool
  changed : Bool
  deriving DecidableEq

abbrev Directory (φ σ : Type) := Listing Name DirectoryAttributes (DirEntry φ σ)

/-! ### The walk -/

structure FileDiscovery where
  root : RelativePath
  rootDevice : Nat
  exclusions : List RelativePath

inductive DiscoveryError
  | invalidExclusion (path : RelativePath)
  deriving DecidableEq

/-- `FileDiscovery::with_exclusions` of a directory that can be listed. -/
def withExclusions (root : RelativePath) (rootDevice : Nat) (exclusions : List RelativePath) :
    Except DiscoveryError FileDiscovery :=
  match exclusions.find? fun e => e = [] ∨ utf8 ".." ∈ e with
  | some exclusion => .error (.invalidExclusion exclusion)
  | none => .ok ⟨root, rootDevice, exclusions⟩

inductive DiscoveryItem (φ σ : Type)
  | file (path : RelativePath) (f : φ)
  | symlink (path : RelativePath) (link : σ)
  | special (path : RelativePath)
  | excluded (path : RelativePath)
  | filesystemBoundary (path : RelativePath)
  | concurrentChange (path : Option RelativePath)
  | error (path : Option RelativePath)

namespace FileDiscovery

variable {φ σ : Type} (fd : FileDiscovery)

/-- `.git` is repository metadata, and `.archive-ledger` holds repair quarantine. -/
def isExcluded (relative : RelativePath) : Bool :=
  (fd.root ++ relative).any (fun name => decide (name = utf8 ".git") || decide (name = utf8 ".archive-ledger")) ||
    fd.exclusions.any fun excluded => excluded.isPrefixOf relative

def entryItem (path : RelativePath) (e : DirEntry φ σ) : DiscoveryItem φ σ :=
  match e with
  | .unread => .error none
  | .untyped => if fd.isExcluded path then .excluded path else .error (some path)
  | .symlink link => if fd.isExcluded path then .excluded path else .symlink path link
  | .unmeasured => if fd.isExcluded path then .excluded path else .error (some path)
  | .file f => if fd.isExcluded path then .excluded path else .file path f
  | .special => if fd.isExcluded path then .excluded path else .special path

/-- The item of a directory that is not entered. -/
def directoryItem? (path : RelativePath) (d : DirectoryAttributes) : Option (DiscoveryItem φ σ) :=
  if fd.isExcluded path then some (.excluded path)
  else if !d.measured then some (.error (some path))
  else if d.device ≠ fd.rootDevice then some (.filesystemBoundary path)
  else if !d.listed then some (.error (some path))
  else none

/-- The items of what a directory lists.  The recursion is the stack of open directories. -/
def items (base : RelativePath) : Directory φ σ → List (DiscoveryItem φ σ)
  | .nil => []
  | .entry name e rest => fd.entryItem (base ++ [name]) e :: items base rest
  | .directory name d children rest =>
      (match fd.directoryItem? (base ++ [name]) d with
        | some item => [item]
        | none => items (base ++ [name]) children ++
            if d.changed then [.concurrentChange (some (base ++ [name]))] else []) ++
        items base rest

/-- All items of the root, whose own snapshot is compared at the end. -/
def discover (rootChanged : Bool) (l : Directory φ σ) : List (DiscoveryItem φ σ) :=
  fd.items [] l ++ if rootChanged then [.concurrentChange none] else []

/-- The walk descends into the directory. -/
def enters (path : RelativePath) (d : DirectoryAttributes) : Bool :=
  !fd.isExcluded path && d.measured && decide (d.device = fd.rootDevice) && d.listed

end FileDiscovery

/-! ### Lemmas on paths -/

/-- A name that an entry can have. -/
def GoodName (name : Name) : Prop := name ≠ [] ∧ (47 : UInt8) ∉ name

theorem joinPath_cons {name : Name} {rest : RelativePath} (h : rest ≠ []) :
    joinPath (name :: rest) = name ++ 47 :: joinPath rest := by
  cases rest with
  | nil => exact absurd rfl h
  | cons => rfl

theorem append_slash_inj {x x' y y' : Bytes} (hx : (47 : UInt8) ∉ x) (hx' : (47 : UInt8) ∉ x')
    (h : x ++ 47 :: y = x' ++ 47 :: y') : x = x' ∧ y = y' := by
  induction x generalizing x' with
  | nil =>
    cases x' with
    | nil => exact ⟨rfl, (List.cons.inj h).2⟩
    | cons b x' => exact absurd (List.mem_cons.mpr (Or.inl (List.cons.inj h).1)) hx'
  | cons a x ih =>
    cases x' with
    | nil => exact absurd (List.mem_cons.mpr (Or.inl (List.cons.inj h).1.symm)) hx
    | cons b x' =>
      obtain ⟨hab, h⟩ := List.cons.inj h
      obtain ⟨hxx, hy⟩ := ih (fun hm => hx (List.mem_cons_of_mem _ hm))
        (fun hm => hx' (List.mem_cons_of_mem _ hm)) h
      exact ⟨by rw [hab, hxx], hy⟩

/-- Different paths are written differently. -/
theorem joinPath_inj {p q : RelativePath} (hp : ∀ name ∈ p, GoodName name)
    (hq : ∀ name ∈ q, GoodName name) (h : joinPath p = joinPath q) : p = q := by
  have hslash : ∀ (n : Name) (r : RelativePath), r ≠ [] → (47 : UInt8) ∈ joinPath (n :: r) := by
    intro n r hr
    rw [joinPath_cons hr]
    simp
  have hempty : ∀ (n : Name) (r : RelativePath), GoodName n → joinPath (n :: r) ≠ [] := by
    intro n r hn
    cases r with
    | nil => exact hn.1
    | cons m r =>
      rw [joinPath_cons (List.cons_ne_nil _ _)]
      simp
  induction p generalizing q with
  | nil =>
    cases q with
    | nil => rfl
    | cons m q => exact absurd h.symm (hempty m q (hq m List.mem_cons_self))
  | cons n p ih =>
    cases q with
    | nil => exact absurd h (hempty n p (hp n List.mem_cons_self))
    | cons m q =>
      have hn := hp n List.mem_cons_self
      have hm := hq m List.mem_cons_self
      by_cases hpnil : p = []
      · by_cases hqnil : q = []
        · rw [hpnil, hqnil] at h ⊢
          exact congrArg (fun x => [x]) h
        · rw [hpnil] at h
          have hmem : 47 ∈ joinPath [n] := by
            rw [h]
            exact hslash m q hqnil
          exact absurd hmem hn.2
      · by_cases hqnil : q = []
        · rw [hqnil] at h
          have hmem : 47 ∈ joinPath [m] := by
            rw [← h]
            exact hslash n p hpnil
          exact absurd hmem hm.2
        · rw [joinPath_cons hpnil, joinPath_cons hqnil] at h
          obtain ⟨hnm, hrest⟩ := append_slash_inj hn.2 hm.2 h
          rw [hnm, ih (fun x hx => hp x (List.mem_cons_of_mem _ hx))
            (fun x hx => hq x (List.mem_cons_of_mem _ hx)) hrest]

theorem encodeRelativePath_bytes (path : RelativePath) : (encodeRelativePath path).bytes = joinPath path := by
  unfold encodeRelativePath
  dsimp only
  split <;> rfl

/-! ### Lemmas on the walk -/

variable {φ σ : Type} {fd : FileDiscovery}

/-- What is below an excluded path is excluded. -/
theorem isExcluded_of_prefix {path below : RelativePath} (h : path <+: below)
    (hexcluded : fd.isExcluded path = true) : fd.isExcluded below = true := by
  unfold FileDiscovery.isExcluded at hexcluded ⊢
  rw [Bool.or_eq_true] at hexcluded ⊢
  rcases hexcluded with hname | hlisted
  · left
    obtain ⟨name, hmem, hname⟩ := List.any_eq_true.mp hname
    refine List.any_eq_true.mpr ⟨name, ?_, hname⟩
    rcases List.mem_append.mp hmem with hmem | hmem
    · exact List.mem_append_left _ hmem
    · exact List.mem_append_right _ (h.subset hmem)
  · right
    obtain ⟨excluded, hmem, hprefix⟩ := List.any_eq_true.mp hlisted
    exact List.any_eq_true.mpr ⟨excluded, hmem,
      List.isPrefixOf_iff_prefix.mpr ((List.isPrefixOf_iff_prefix.mp hprefix).trans h)⟩

/-- A directory is entered where it yields no item. -/
theorem enters_iff {path : RelativePath} {d : DirectoryAttributes} :
    fd.enters path d = true ↔ fd.directoryItem? (φ := φ) (σ := σ) path d = none := by
  unfold FileDiscovery.enters FileDiscovery.directoryItem?
  by_cases hexcluded : fd.isExcluded path = true
  · simp [hexcluded]
  · by_cases hmeasured : d.measured = true
    · by_cases hdevice : d.device = fd.rootDevice
      · by_cases hlisted : d.listed = true
        · simp [hexcluded, hmeasured, hdevice, hlisted]
        · simp [hexcluded, hmeasured, hdevice, hlisted]
      · simp [hexcluded, hmeasured, hdevice]
    · simp [hexcluded, hmeasured]

/-- The file an entry is, unless it is excluded. -/
def FileDiscovery.fileAt (fd : FileDiscovery) (p : Placed Name DirectoryAttributes (DirEntry φ σ)) :
    Option (RelativePath × φ) :=
  match p.entry with
  | .file f => if fd.isExcluded p.path then none else some (p.path, f)
  | _ => none

def DiscoveryItem.file? : DiscoveryItem φ σ → Option (RelativePath × φ)
  | .file path f => some (path, f)
  | _ => none

/-- The files a walk yields are those it visits, in order. -/
theorem files_of_items (l : Directory φ σ) (base : RelativePath)
    (above : List (Above Name DirectoryAttributes)) :
    (fd.items base l).filterMap DiscoveryItem.file? =
      (l.visited fd.enters base above).filterMap fd.fileAt := by
  induction l generalizing base above with
  | nil => rfl
  | entry name e rest ih =>
    rw [FileDiscovery.items, Listing.visited, List.filterMap_cons, List.filterMap_cons, ih base above]
    have hentry : (fd.entryItem (base ++ [name]) e).file? = fd.fileAt ⟨base ++ [name], above, e⟩ := by
      unfold FileDiscovery.entryItem FileDiscovery.fileAt
      cases e <;> dsimp only <;> first | rfl | (split <;> rfl)
    rw [hentry]
  | directory name d children rest ihc ihr =>
    rw [FileDiscovery.items, Listing.visited, List.filterMap_append, List.filterMap_append,
      ihr base above]
    congr 1
    by_cases henter : fd.enters (base ++ [name]) d = true
    · rw [if_pos henter, enters_iff.mp henter]
      dsimp only
      rw [List.filterMap_append, ihc (base ++ [name]) (above ++ [(base ++ [name], d)])]
      split <;> simp [DiscoveryItem.file?]
    · rw [if_neg henter]
      cases hitem : fd.directoryItem? (φ := φ) (σ := σ) (base ++ [name]) d with
      | none => exact absurd (enters_iff.mpr hitem) henter
      | some item =>
        have hnone : item.file? = none := by
          unfold FileDiscovery.directoryItem? at hitem
          split at hitem
          · cases hitem
            rfl
          · split at hitem
            · cases hitem
              rfl
            · split at hitem
              · cases hitem
                rfl
              · split at hitem
                · cases hitem
                  rfl
                · cases hitem
        simp [hnone]

/-- A directory that is reached and not entered yields its item. -/
theorem directoryItem_mem {l : Directory φ σ} {base : RelativePath} {x : Above Name DirectoryAttributes}
    {item : DiscoveryItem φ σ} (h : x ∈ l.reached fd.enters base)
    (hitem : fd.directoryItem? x.1 x.2 = some item) : item ∈ fd.items base l := by
  induction l generalizing base with
  | nil => cases h
  | entry name e rest ih => exact List.mem_cons_of_mem _ (ih h)
  | directory name d children rest ihc ihr =>
    rw [FileDiscovery.items]
    rcases List.mem_cons.mp h with rfl | h
    · rw [hitem]
      exact List.mem_append_left _ List.mem_cons_self
    · rcases List.mem_append.mp h with h | h
      · by_cases henter : fd.enters (base ++ [name]) d = true
        · rw [if_pos henter] at h
          rw [enters_iff.mp henter]
          exact List.mem_append_left _ (List.mem_append_left _ (ihc h))
        · rw [if_neg henter] at h
          cases h
      · exact List.mem_append_right _ (ihr h)

end ArchiveLedger.Discovery
