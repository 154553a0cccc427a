import Mathlib

/-!
# Text operations of the standard library

`trim` removes the characters of Unicode's `White_Space` from both ends of a
string, and `toAsciiLowercase` maps the letters `A` to `Z` and no other
character.  `splitWhitespace` gives the words of a text, and `splitWhitespace_cons` reads a word
back that stands before a blank.
-/

namespace Text

/-- The characters with the Unicode property `White_Space`. -/
def isWhitespace (c : Char) : Bool :=
  let n := c.toNat
  (9 ≤ n && n ≤ 13) || n == 0x20 || n == 0x85 || n == 0xA0 || n == 0x1680 ||
    (0x2000 ≤ n && n ≤ 0x200A) || n == 0x2028 || n == 0x2029 || n == 0x202F || n == 0x205F ||
    n == 0x3000

def trimChars (l : List Char) : List Char := (l.dropWhile isWhitespace).rdropWhile isWhitespace

def trim (s : String) : String := String.ofList (trimChars s.toList)

def toAsciiLowercase (s : String) : String := String.ofList (s.toList.map Char.toLower)

/-- A text has no more characters than bytes. -/
theorem length_le_utf8ByteSize (l : List Char) : l.length ≤ (String.ofList l).utf8ByteSize := by
  induction l with
  | nil => exact Nat.zero_le _
  | cons c l ih =>
    rw [String.ofList_cons, String.utf8ByteSize_append, String.utf8ByteSize_singleton,
      List.length_cons]
    have := c.utf8Size_pos
    omega

/-! ### Words -/

/-- `str::split_whitespace`: the parts between white space, empty ones left out. -/
def splitWhitespace (s : String) : List String :=
  ((s.toList.splitOnP isWhitespace).filter fun part => part ≠ []).map String.ofList

/-- A text that is one part: not empty and without white space. -/
def Word (s : String) : Prop := s ≠ "" ∧ ∀ c ∈ s.toList, isWhitespace c = false

instance (s : String) : Decidable (Word s) := inferInstanceAs (Decidable (_ ∧ _))

theorem word_ofList {l : List Char} (hl : l ≠ []) (h : ∀ c ∈ l, isWhitespace c = false) :
    Word (String.ofList l) := by
  refine ⟨?_, ?_⟩
  · intro hempty
    have hlist := congrArg String.toList hempty
    rw [String.toList_ofList] at hlist
    exact hl (hlist.trans String.toList_empty)
  · rw [String.toList_ofList]
    exact h

theorem Word.toList_ne_nil {s : String} (h : Word s) : s.toList ≠ [] := by
  intro hnil
  exact h.1 (String.toList_inj.mp (hnil.trans String.toList_empty.symm))

/-- One word is its own only part. -/
theorem splitWhitespace_word {s : String} (h : Word s) : splitWhitespace s = [s] := by
  rw [splitWhitespace, List.splitOnP_eq_singleton h.2, List.filter_cons_of_pos (by simpa using h.toList_ne_nil),
    List.filter_nil, List.map_cons, List.map_nil, String.ofList_toList]

/-- A word before a blank is the first part. -/
theorem splitWhitespace_cons {s : String} (h : Word s) (rest : String) :
    splitWhitespace (s ++ " " ++ rest) = s :: splitWhitespace rest := by
  have hblank : isWhitespace ' ' = true := by decide
  have hsplit : (s ++ " " ++ rest).toList = s.toList ++ ' ' :: rest.toList := by
    rw [String.toList_append, String.toList_append, List.append_assoc]
    rfl
  rw [splitWhitespace, hsplit, List.splitOnP_append_cons_of_forall_mem h.2 ' ' hblank,
    List.filter_cons_of_pos (by simpa using h.toList_ne_nil), List.map_cons, String.ofList_toList]
  rfl

example : trim " ab\u00a0\t" = "ab" := by decide

end Text
