import Mathlib

/-!
# JSON text

The compact rendering of strings, natural numbers and arrays.  Each
writer is uniquely readable: what is written determines the value and where the
text after it begins (`writeString_cancel`, `writeNat_cancel`,
`writeBytes_cancel`, `writeArray_cancel`), so a record written field by field determines its fields.
-/

namespace JsonText

/-! ### Strings -/

/-- A hexadecimal digit in lower case. -/
def hexDigit (n : Nat) : Char := if n < 10 then Char.ofNat (48 + n) else Char.ofNat (87 + n)

/-- One character inside a string literal: the quote, the backslash and the
control characters are escaped and everything else stands for itself. -/
def writeChar (c : Char) : List Char :=
  if c = '"' then ['\\', '"']
  else if c = '\\' then ['\\', '\\']
  else if c = '\x08' then ['\\', 'b']
  else if c = '\x0c' then ['\\', 'f']
  else if c = '\n' then ['\\', 'n']
  else if c = '\x0d' then ['\\', 'r']
  else if c = '\t' then ['\\', 't']
  else if c.toNat < 32 then ['\\', 'u', '0', '0', hexDigit (c.toNat / 16), hexDigit (c.toNat % 16)]
  else [c]

def writeString (s : String) : List Char := '"' :: s.toList.flatMap writeChar ++ ['"']

/-- The character a written text starts with, and the text after it. -/
def readChar : List Char → Option (Char × List Char)
  | '\\' :: 'u' :: '0' :: '0' :: x :: y :: rest =>
      match (List.range 32).find? fun n => hexDigit (n / 16) = x ∧ hexDigit (n % 16) = y with
      | some n => some (Char.ofNat n, rest)
      | none => none
  | '\\' :: x :: rest =>
      match x with
      | '"' => some ('"', rest)
      | '\\' => some ('\\', rest)
      | 'b' => some ('\x08', rest)
      | 'f' => some ('\x0c', rest)
      | 'n' => some ('\n', rest)
      | 'r' => some ('\x0d', rest)
      | 't' => some ('\t', rest)
      | _ => none
  | c :: rest => some (c, rest)
  | [] => none

theorem find_hexDigits : ∀ n < 32, (List.range 32).find? (fun m =>
    hexDigit (m / 16) = hexDigit (n / 16) ∧ hexDigit (m % 16) = hexDigit (n % 16)) = some n := by
  decide

theorem readChar_writeChar (c : Char) (rest : List Char) :
    readChar (writeChar c ++ rest) = some (c, rest) := by
  unfold writeChar
  iterate 7 (split; · subst_vars; rfl)
  split
  · rename_i h
    simp only [List.cons_append, List.nil_append, readChar, find_hexDigits c.toNat h,
      Char.ofNat_toNat]
  · rename_i hq hb _ _ _ _ _ _
    rw [List.cons_append, List.nil_append, readChar.eq_def]
    split <;> simp_all

theorem writeChar_cancel {c d : Char} {r s : List Char} (h : writeChar c ++ r = writeChar d ++ s) :
    c = d ∧ r = s := by
  have := readChar_writeChar c r
  rw [h, readChar_writeChar] at this
  simp only [Option.some.injEq, Prod.mk.injEq] at this
  exact ⟨this.1.symm, this.2.symm⟩

/-- A character is never written as a bare quote. -/
theorem writeChar_ne_quote (c : Char) (r s : List Char) : writeChar c ++ r ≠ '"' :: s := by
  intro h
  unfold writeChar at h
  repeat' split at h
  all_goals simp_all

theorem writeChars_cancel : ∀ {l m r s : List Char},
    l.flatMap writeChar ++ '"' :: r = m.flatMap writeChar ++ '"' :: s → l = m ∧ r = s := by
  intro l
  induction l with
  | nil =>
    intro m r s h
    cases m with
    | nil => simpa using h
    | cons d m =>
      simp only [List.flatMap_nil, List.nil_append, List.flatMap_cons, List.append_assoc] at h
      exact absurd h.symm (writeChar_ne_quote d _ _)
  | cons c l ih =>
    intro m r s h
    cases m with
    | nil =>
      simp only [List.flatMap_nil, List.nil_append, List.flatMap_cons, List.append_assoc] at h
      exact absurd h (writeChar_ne_quote c _ _)
    | cons d m =>
      simp only [List.flatMap_cons, List.append_assoc] at h
      obtain ⟨rfl, hrest⟩ := writeChar_cancel h
      obtain ⟨rfl, hend⟩ := ih hrest
      exact ⟨rfl, hend⟩

theorem writeString_cancel {s t : String} {r u : List Char}
    (h : writeString s ++ r = writeString t ++ u) : s = t ∧ r = u := by
  simp only [writeString, List.cons_append, List.append_assoc, List.nil_append, List.cons.injEq,
    true_and] at h
  obtain ⟨hl, hr⟩ := writeChars_cancel h
  exact ⟨String.toList_injective hl, hr⟩

/-! ### Numbers -/

def writeNat (n : Nat) : List Char := Nat.toDigits 10 n

/-- A text that does not go on with a digit. -/
def Ends (r : List Char) : Prop := ∀ c ∈ r.head?, c.isDigit = false

theorem takeWhile_writeNat (n : Nat) {r : List Char} (hr : Ends r) :
    (writeNat n ++ r).takeWhile Char.isDigit = writeNat n := by
  have hall : ∀ c ∈ writeNat n, Char.isDigit c = true := fun c hc =>
    Nat.isDigit_of_mem_toDigits (by decide) (by decide) hc
  rw [List.takeWhile_append_of_pos hall]
  cases r with
  | nil => simp
  | cons c r => rw [List.takeWhile_cons_of_neg (by simp [hr c rfl]), List.append_nil]

theorem writeNat_cancel {m n : Nat} {r s : List Char} (hr : Ends r) (hs : Ends s)
    (h : writeNat m ++ r = writeNat n ++ s) : m = n ∧ r = s := by
  have hd : writeNat m = writeNat n := by
    rw [← takeWhile_writeNat m hr, h, takeWhile_writeNat n hs]
  rw [hd] at h
  have hn : ∀ k, Nat.ofDigitChars 10 (writeNat k) 0 = k := fun k =>
    Nat.ofDigitChars_toDigits (by decide) (by decide)
  exact ⟨by rw [← hn m, hd, hn], List.append_cancel_left h⟩

/-! ### Arrays of bytes -/

/-- The elements of an array after the first. -/
def writeRest : List UInt8 → List Char
  | [] => [']']
  | b :: bytes => ',' :: writeNat b.toNat ++ writeRest bytes

def writeBytes : List UInt8 → List Char
  | [] => ['[', ']']
  | b :: bytes => '[' :: writeNat b.toNat ++ writeRest bytes

theorem ends_writeRest (bytes : List UInt8) (r : List Char) : Ends (writeRest bytes ++ r) := by
  cases bytes <;> simp [writeRest, Ends]

theorem writeRest_cancel : ∀ {x y : List UInt8} {r s : List Char},
    writeRest x ++ r = writeRest y ++ s → x = y ∧ r = s := by
  intro x
  induction x with
  | nil =>
    intro y r s h
    cases y with
    | nil => simpa [writeRest] using h
    | cons b y => simp [writeRest] at h
  | cons a x ih =>
    intro y r s h
    cases y with
    | nil => simp [writeRest] at h
    | cons b y =>
      simp only [writeRest, List.cons_append, List.append_assoc, List.cons.injEq, true_and] at h
      obtain ⟨hab, hrest⟩ := writeNat_cancel (ends_writeRest x r) (ends_writeRest y s) h
      obtain ⟨rfl, hend⟩ := ih hrest
      exact ⟨by rw [UInt8.toNat_inj.mp hab], hend⟩

theorem writeNat_ne_bracket (n : Nat) (r s : List Char) : writeNat n ++ r ≠ ']' :: s := by
  intro h
  have hne : writeNat n ≠ [] := Nat.toDigits_ne_nil
  obtain ⟨c, cs, hc⟩ := List.exists_cons_of_ne_nil hne
  rw [hc, List.cons_append] at h
  have hdigit : Char.isDigit c = true :=
    Nat.isDigit_of_mem_toDigits (b := 10) (n := n) (by decide) (by decide) (by
      show c ∈ writeNat n
      rw [hc]; exact List.mem_cons_self)
  rw [(List.cons.inj h).1] at hdigit
  exact absurd hdigit (by decide)

theorem writeBytes_cancel {x y : List UInt8} {r s : List Char}
    (h : writeBytes x ++ r = writeBytes y ++ s) : x = y ∧ r = s := by
  cases x with
  | nil =>
    cases y with
    | nil => simpa [writeBytes] using h
    | cons b y =>
      simp only [writeBytes, List.cons_append, List.nil_append, List.append_assoc,
        List.cons.injEq, true_and] at h
      exact absurd h.symm (writeNat_ne_bracket _ _ _)
  | cons a x =>
    cases y with
    | nil =>
      simp only [writeBytes, List.cons_append, List.nil_append, List.append_assoc,
        List.cons.injEq, true_and] at h
      exact absurd h (writeNat_ne_bracket _ _ _)
    | cons b y =>
      simp only [writeBytes, List.cons_append, List.append_assoc, List.cons.injEq, true_and] at h
      obtain ⟨hab, hrest⟩ := writeNat_cancel (ends_writeRest x r) (ends_writeRest y s) h
      obtain ⟨rfl, hend⟩ := writeRest_cancel hrest
      exact ⟨by rw [UInt8.toNat_inj.mp hab], hend⟩

theorem length_le_writeRest (bytes : List UInt8) : bytes.length ≤ (writeRest bytes).length := by
  induction bytes with
  | nil => exact Nat.zero_le _
  | cons b bytes ih =>
    simp only [writeRest, List.cons_append, List.length_cons, List.length_append]
    omega

/-- An array of bytes is at least as long as the bytes it lists. -/
theorem length_le_writeBytes (bytes : List UInt8) : bytes.length ≤ (writeBytes bytes).length := by
  cases bytes with
  | nil => exact Nat.zero_le _
  | cons b bytes =>
    have := length_le_writeRest bytes
    simp only [writeBytes, List.cons_append, List.length_cons, List.length_append]
    omega

/-! ### Arrays -/

section

variable {α : Type} (write : α → List Char)

/-- The elements of an array after the first. -/
def writeMore : List α → List Char
  | [] => [']']
  | x :: xs => ',' :: write x ++ writeMore xs

def writeArray : List α → List Char
  | [] => ['[', ']']
  | x :: xs => '[' :: write x ++ writeMore write xs

variable {write}

theorem writeMore_cancel (hwrite : ∀ {x y : α} {r s : List Char}, write x ++ r = write y ++ s → x = y ∧ r = s) :
    ∀ {xs ys : List α} {r s : List Char}, writeMore write xs ++ r = writeMore write ys ++ s → xs = ys ∧ r = s := by
  intro xs
  induction xs with
  | nil =>
    intro ys r s h
    cases ys with
    | nil => exact ⟨rfl, (List.cons.inj h).2⟩
    | cons y ys => exact absurd (List.cons.inj h).1 (by decide)
  | cons x xs ih =>
    intro ys r s h
    cases ys with
    | nil => exact absurd (List.cons.inj h).1 (by decide)
    | cons y ys =>
      simp only [writeMore, List.cons_append, List.append_assoc, List.cons.injEq, true_and] at h
      obtain ⟨rfl, hrest⟩ := hwrite h
      obtain ⟨rfl, hend⟩ := ih hrest
      exact ⟨rfl, hend⟩

theorem writeArray_cancel (hwrite : ∀ {x y : α} {r s : List Char}, write x ++ r = write y ++ s → x = y ∧ r = s)
    (hbracket : ∀ x r s, write x ++ r ≠ ']' :: s) {xs ys : List α} {r s : List Char}
    (h : writeArray write xs ++ r = writeArray write ys ++ s) : xs = ys ∧ r = s := by
  cases xs with
  | nil =>
    cases ys with
    | nil => exact ⟨rfl, List.append_cancel_left h⟩
    | cons y ys =>
      simp only [writeArray, List.cons_append, List.nil_append, List.append_assoc, List.cons.injEq, true_and] at h
      exact absurd h.symm (hbracket _ _ _)
  | cons x xs =>
    cases ys with
    | nil =>
      simp only [writeArray, List.cons_append, List.nil_append, List.append_assoc, List.cons.injEq, true_and] at h
      exact absurd h (hbracket _ _ _)
    | cons y ys =>
      simp only [writeArray, List.cons_append, List.append_assoc, List.cons.injEq, true_and] at h
      obtain ⟨rfl, hrest⟩ := hwrite h
      obtain ⟨rfl, hend⟩ := writeMore_cancel hwrite hrest
      exact ⟨rfl, hend⟩

end

example : writeString "a\"\n" = ['"', 'a', '\\', '"', '\\', 'n', '"'] := by decide

end JsonText
