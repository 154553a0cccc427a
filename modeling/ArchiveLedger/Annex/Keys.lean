import ArchiveLedger.Journal.Batches

/-!
# Keys of git-annex

`AnnexKey::parse` and `annex_key_from_blob` of `annex.rs`.  A key is UTF-8 text, held as its bytes; a
slice that ends inside a character panics.
-/

namespace ArchiveLedger.Annex

/-! ### Text -/

/-- `str::is_char_boundary`. -/
def isCharBoundary (text : Bytes) (index : Nat) : Bool :=
  index = 0 || match text[index]? with
    | some b => decide (b < 128) || decide (192 ≤ b)
    | none => index = text.length

inductive Panic where
  | slice
deriving DecidableEq, Repr

/-- `&text[..length]`. -/
def slice (text : Bytes) (length : Nat) : Except Panic Bytes :=
  if isCharBoundary text length then .ok (text.take length) else .error .slice

/-- `text.get(..length)`. -/
def getSlice (text : Bytes) (length : Nat) : Option Bytes :=
  if isCharBoundary text length then some (text.take length) else none

/-- `text.split_once("--")`. -/
def splitOnce : Bytes → Option (Bytes × Bytes)
  | [] => none
  | b :: rest =>
      if b = 45 ∧ rest.head? = some 45 then some ([], rest.tail)
      else (splitOnce rest).map fun parts => (b :: parts.1, parts.2)

def decimal (digits : Bytes) : Nat := digits.foldl (fun n b => n * 10 + (b.toNat - 48)) 0

/-- Decimal digits, at least one. -/
def isDecimal (digits : Bytes) : Bool := digits ≠ [] && digits.all fun b => decide (48 ≤ b ∧ b ≤ 57)

/-- `str::parse::<u64>`, which takes a plus sign. -/
def parseU64 (text : Bytes) : Option Nat :=
  let digits := if text.head? = some 43 then text.tail else text
  if isDecimal digits ∧ decimal digits ≤ u64Max then some (decimal digits) else none

def isLowerHexOf (value : Bytes) (length : Nat) : Bool := value.length = length && value.all isLowerHex

/-! ### Keys -/

inductive KeyState where
  | supported | unsupported
deriving DecidableEq, Repr

structure AnnexKey where
  raw : Bytes
  backend : Bytes
  expectedSize : Option Nat
  expectedSha256 : Option Bytes
  expectedSha512 : Option Bytes
  state : KeyState
deriving DecidableEq, Repr

inductive HashAlgorithm where
  | sha256 | sha512
deriving DecidableEq, Repr

namespace AnnexKey

/-- What stands before and after the first `--`. -/
def parts (raw : Bytes) : Bytes × Bytes := (splitOnce raw).getD (raw, [])

def fieldsOf (raw : Bytes) : List Bytes := (parts raw).1.splitOn 45

def backendOf (raw : Bytes) : Bytes := (fieldsOf raw).headD []

/-- `field.strip_prefix('s')`. -/
def sizeDigits (field : Bytes) : Option Bytes := if field.head? = some 115 then some field.tail else none

/-- The text of the first size field after the backend. -/
def sizeText (raw : Bytes) : Option Bytes := (fieldsOf raw).tail.findSome? sizeDigits

def sha256Of (backend name : Bytes) : Except Panic (Option Bytes) :=
  if backend = utf8 "SHA256" then .ok (if isLowerHexOf name 64 then some name else none)
  else if backend = utf8 "SHA256E" ∧ 64 ≤ name.length then do
    let leading ← slice name 64
    .ok (if isLowerHexOf leading 64 then some leading else none)
  else .ok none

def sha512Of (backend name : Bytes) : Option Bytes :=
  if backend = utf8 "SHA512" then if isLowerHexOf name 128 then some name else none
  else if backend = utf8 "SHA512E" then (getSlice name 128).filter fun hash => isLowerHexOf hash 128
  else none

def recognized (backend : Bytes) : Bool :=
  [utf8 "SHA256", utf8 "SHA256E", utf8 "SHA512", utf8 "SHA512E", utf8 "SHA1", utf8 "SHA1E", utf8 "MD5",
    utf8 "MD5E", utf8 "BLAKE2B", utf8 "BLAKE2BP"].contains backend

def parse (raw : Bytes) : Except Panic AnnexKey := do
  let backend := backendOf raw
  let expectedSha256 ← sha256Of backend (parts raw).2
  .ok {
    raw := raw
    backend := backend
    expectedSize := (sizeText raw).bind parseU64
    expectedSha256 := expectedSha256
    expectedSha512 := sha512Of backend (parts raw).2
    state := if (splitOnce raw).isSome && recognized backend then .supported else .unsupported }

def expectedHash (key : AnnexKey) : Option (HashAlgorithm × Bytes) :=
  (key.expectedSha256.map fun hash => (.sha256, hash)).or
    (key.expectedSha512.map fun hash => (.sha512, hash))

end AnnexKey

/-! ### Blobs -/

def isUtf8 (bytes : Bytes) : Bool := (String.fromUTF8? ⟨bytes.toArray⟩).isSome

/-- What stands after the first occurrence of a marker. -/
def findAfter (marker : Bytes) : Bytes → Option Bytes
  | [] => if marker = [] then some [] else none
  | b :: rest =>
      if marker.isPrefixOf (b :: rest) then some ((b :: rest).drop marker.length)
      else findAfter marker rest

def annexObjectRelative (blob : Bytes) : Option Bytes :=
  (findAfter (utf8 ".git/annex/objects/") blob).filter fun relative => relative ≠ []

/-- The last two components of a target are both the key. -/
def keyOfTarget (blob : Bytes) : Option Bytes :=
  match (blob.splitOn 47).reverse with
  | last :: previous :: _ => if last = previous ∧ isUtf8 last then some last else none
  | _ => none

def keyOfPointer (blob : Bytes) : Option Bytes :=
  let line := blob.takeWhile fun b => b ≠ 10
  let start := utf8 "/annex/objects/"
  if start.isPrefixOf line then
    let key := line.drop start.length
    if key ≠ [] ∧ isUtf8 key then some key else none
  else none

def annexKeyFromBlob (mode : String) (blob : Bytes) : Option Bytes :=
  if mode = "120000" then (annexObjectRelative blob).bind fun _ => keyOfTarget blob
  else keyOfPointer blob

/-! ### What parsing gives -/

namespace AnnexKey

/-- The slice of a `SHA256E` name ends inside a character. -/
def SplitsCharacter (raw : Bytes) : Prop :=
  backendOf raw = utf8 "SHA256E" ∧ 64 ≤ (parts raw).2.length ∧ isCharBoundary (parts raw).2 64 = false

theorem sha256Of_isOk {backend name : Bytes} : (∃ hash, sha256Of backend name = .ok hash) ↔
    ¬ (backend = utf8 "SHA256E" ∧ 64 ≤ name.length ∧ isCharBoundary name 64 = false) := by
  unfold sha256Of slice
  by_cases hplain : backend = utf8 "SHA256"
  · have hother : ¬ backend = utf8 "SHA256E" := by
      rw [hplain]
      decide +kernel
    rw [if_pos hplain]
    exact iff_of_true ⟨_, rfl⟩ fun h => hother h.1
  · rw [if_neg hplain]
    by_cases hext : backend = utf8 "SHA256E" ∧ 64 ≤ name.length
    · rw [if_pos hext]
      cases hboundary : isCharBoundary name 64 with
      | true => exact iff_of_true ⟨_, rfl⟩ fun h => Bool.false_ne_true h.2.2.symm
      | false =>
        refine iff_of_false ?_ fun h => h ⟨hext.1, hext.2, rfl⟩
        intro hok
        obtain ⟨hash, hhash⟩ := hok
        cases hhash
    · rw [if_neg hext]
      exact iff_of_true ⟨_, rfl⟩ fun h => hext ⟨h.1, h.2.1⟩

theorem parse_isOk {raw : Bytes} : (∃ key, parse raw = .ok key) ↔ ¬ SplitsCharacter raw := by
  rw [SplitsCharacter, ← sha256Of_isOk]
  constructor
  · intro hkey
    obtain ⟨key, hkey⟩ := hkey
    obtain ⟨hash, hhash, -⟩ := Transition.bind_eq_ok.mp hkey
    exact ⟨hash, hhash⟩
  · intro hhash
    obtain ⟨hash, hhash⟩ := hhash
    exact ⟨_, Transition.bind_eq_ok.mpr ⟨hash, hhash, rfl⟩⟩

theorem parse_eq_ok {raw : Bytes} {key : AnnexKey} (h : parse raw = .ok key) :
    key.raw = raw ∧ key.backend = backendOf raw ∧ key.expectedSize = (sizeText raw).bind parseU64 ∧
      sha256Of (backendOf raw) (parts raw).2 = .ok key.expectedSha256 ∧
      key.expectedSha512 = sha512Of (backendOf raw) (parts raw).2 := by
  obtain ⟨hash, hhash, h⟩ := Transition.bind_eq_ok.mp h
  cases h
  exact ⟨rfl, rfl, rfl, hhash, rfl⟩

/-- The backends of an algorithm: the plain one and the one with an extension. -/
def backends : HashAlgorithm → Bytes × Bytes
  | .sha256 => (utf8 "SHA256", utf8 "SHA256E")
  | .sha512 => (utf8 "SHA512", utf8 "SHA512E")

def digestLength : HashAlgorithm → Nat
  | .sha256 => 64
  | .sha512 => 128

/-- The hash a backend asks of a name: all of it, or what it leads with before an extension. -/
def Announces (raw : Bytes) (algorithm : HashAlgorithm) (hash : Bytes) : Prop :=
  hash <+: (parts raw).2 ∧ isLowerHexOf hash (digestLength algorithm) = true ∧
    (backendOf raw = (backends algorithm).1 ∧ hash = (parts raw).2 ∨ backendOf raw = (backends algorithm).2)

theorem announces_sha256 {raw hash : Bytes} (h : sha256Of (backendOf raw) (parts raw).2 = .ok (some hash)) :
    Announces raw .sha256 hash := by
  unfold sha256Of at h
  split at h
  · rename_i hbackend
    split at h
    · rename_i hhex
      cases h
      exact ⟨List.prefix_rfl, hhex, .inl ⟨hbackend, rfl⟩⟩
    · cases h
  · split at h
    · rename_i hbackend
      obtain ⟨leading, hleading, h⟩ := Transition.bind_eq_ok.mp h
      unfold slice at hleading
      split at hleading
      · cases hleading
        split at h
        · rename_i hhex
          cases h
          exact ⟨ List.take_prefix 64 _, hhex, .inr hbackend.1⟩
        · cases h
      · cases hleading
    · cases h

theorem announces_sha512 {raw hash : Bytes} (h : sha512Of (backendOf raw) (parts raw).2 = some hash) :
    Announces raw .sha512 hash := by
  unfold sha512Of at h
  split at h
  · rename_i hbackend
    split at h
    · rename_i hhex
      cases h
      exact ⟨List.prefix_rfl, hhex, .inl ⟨hbackend, rfl⟩⟩
    · cases h
  · split at h
    · rename_i hbackend
      obtain ⟨hslice, hhex⟩ := Option.filter_eq_some_iff.mp h
      unfold getSlice at hslice
      split at hslice
      · cases hslice
        exact ⟨ List.take_prefix 128 _, hhex, .inr hbackend⟩
      · cases hslice
    · cases h

/-- The expected hash of a key is the one its name announces. -/
theorem announces_of_parse {raw hash : Bytes} {key : AnnexKey} {algorithm : HashAlgorithm}
    (h : parse raw = .ok key) (hhash : key.expectedHash = some (algorithm, hash)) :
    Announces raw algorithm hash := by
  obtain ⟨-, -, -, hsha256, hsha512⟩ := parse_eq_ok h
  unfold expectedHash at hhash
  cases h256 : key.expectedSha256 with
  | some expected =>
    rw [h256] at hhash hsha256
    cases hhash
    exact announces_sha256 hsha256
  | none =>
    rw [h256, Option.map_none, Option.none_or] at hhash
    obtain ⟨expected, h512, heq⟩ := Option.map_eq_some_iff.mp hhash
    cases heq
    rw [h512] at hsha512
    exact announces_sha512 hsha512.symm

end AnnexKey

end ArchiveLedger.Annex
