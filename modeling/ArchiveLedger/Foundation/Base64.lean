import Mathlib

/-!
# Base64

An `Engine` is an alphabet of 64 symbols and the choice whether the last group
is filled up with `=`.  `decode` is strict: it refuses a symbol outside the
alphabet, a group of the wrong length, padding in the wrong place and a last
symbol with unused bits set.  `decode_encode`: what `encode` writes reads back.
-/

namespace Base64

/-- An alphabet and its padding rule. -/
structure Engine where
  symbol : Nat → Char
  value : Char → Option Nat
  padded : Bool
  value_symbol : ∀ n < 64, value (symbol n) = some n
  symbol_ne_pad : ∀ n < 64, symbol n ≠ '='

/-- The letters and digits all alphabets share, then two symbols of their own. -/
def symbolOf (c62 c63 : Char) (n : Nat) : Char :=
  if n < 26 then Char.ofNat (65 + n)
  else if n < 52 then Char.ofNat (97 + (n - 26))
  else if n < 62 then Char.ofNat (48 + (n - 52))
  else if n = 62 then c62 else c63

def valueOf (c62 c63 : Char) (c : Char) : Option Nat :=
  let n := c.toNat
  if 65 ≤ n ∧ n ≤ 90 then some (n - 65)
  else if 97 ≤ n ∧ n ≤ 122 then some (n - 97 + 26)
  else if 48 ≤ n ∧ n ≤ 57 then some (n - 48 + 52)
  else if c = c62 then some 62
  else if c = c63 then some 63
  else none

def standard : Engine where
  symbol := symbolOf '+' '/'
  value := valueOf '+' '/'
  padded := true
  value_symbol := by decide
  symbol_ne_pad := by decide

def urlSafeNoPad : Engine where
  symbol := symbolOf '-' '_'
  value := valueOf '-' '_'
  padded := false
  value_symbol := by decide
  symbol_ne_pad := by decide

variable (e : Engine)

/-- Three bytes give four symbols; one or two bytes left over give two or three. -/
def encode : List UInt8 → List Char
  | a :: b :: c :: rest =>
      e.symbol (a.toNat / 4) :: e.symbol (a.toNat % 4 * 16 + b.toNat / 16) ::
        e.symbol (b.toNat % 16 * 4 + c.toNat / 64) :: e.symbol (c.toNat % 64) :: encode rest
  | [a, b] =>
      [e.symbol (a.toNat / 4), e.symbol (a.toNat % 4 * 16 + b.toNat / 16),
        e.symbol (b.toNat % 16 * 4)] ++ if e.padded then ['='] else []
  | [a] =>
      [e.symbol (a.toNat / 4), e.symbol (a.toNat % 4 * 16)] ++ if e.padded then ['=', '='] else []
  | [] => []

/-- The byte of a last group of two symbols. -/
def decodeTwo (a b : Char) : Option (List UInt8) :=
  match e.value a, e.value b with
  | some x, some y => if y % 16 = 0 then some [UInt8.ofNat (x * 4 + y / 16)] else none
  | _, _ => none

/-- The bytes of a last group of three symbols. -/
def decodeThree (a b c : Char) : Option (List UInt8) :=
  match e.value a, e.value b, e.value c with
  | some x, some y, some z =>
      if z % 4 = 0 then
        some [UInt8.ofNat (x * 4 + y / 16), UInt8.ofNat (y % 16 * 16 + z / 4)]
      else none
  | _, _, _ => none

/-- The bytes of a full group. -/
def decodeFour (a b c d : Char) : Option (List UInt8) :=
  match e.value a, e.value b, e.value c, e.value d with
  | some x, some y, some z, some w =>
      some [UInt8.ofNat (x * 4 + y / 16), UInt8.ofNat (y % 16 * 16 + z / 4),
        UInt8.ofNat (z % 4 * 64 + w)]
  | _, _, _, _ => none

def decode : List Char → Option (List UInt8)
  | [] => some []
  | [_] => none
  | [a, b] => if e.padded then none else decodeTwo e a b
  | [a, b, c] => if e.padded then none else decodeThree e a b c
  | a :: b :: c :: d :: rest =>
      if e.padded ∧ rest = [] ∧ d = '=' then
        if c = '=' then decodeTwo e a b else decodeThree e a b c
      else
        match decodeFour e a b c d, decode rest with
        | some bytes, some more => some (bytes ++ more)
        | _, _ => none

variable {e}

theorem decodeTwo_symbols (a : UInt8) :
    decodeTwo e (e.symbol (a.toNat / 4)) (e.symbol (a.toNat % 4 * 16)) = some [a] := by
  have ha := a.toNat_lt
  unfold decodeTwo
  rw [e.value_symbol _ (by omega), e.value_symbol _ (by omega)]
  have h : a.toNat / 4 * 4 + a.toNat % 4 * 16 / 16 = a.toNat := by omega
  simp only [Nat.mul_mod_left, if_true, h, UInt8.ofNat_toNat]

theorem decodeThree_symbols (a b : UInt8) :
    decodeThree e (e.symbol (a.toNat / 4)) (e.symbol (a.toNat % 4 * 16 + b.toNat / 16))
      (e.symbol (b.toNat % 16 * 4)) = some [a, b] := by
  have ha := a.toNat_lt
  have hb := b.toNat_lt
  unfold decodeThree
  rw [e.value_symbol _ (by omega), e.value_symbol _ (by omega), e.value_symbol _ (by omega)]
  have h₁ : a.toNat / 4 * 4 + (a.toNat % 4 * 16 + b.toNat / 16) / 16 = a.toNat := by omega
  have h₂ : (a.toNat % 4 * 16 + b.toNat / 16) % 16 * 16 + b.toNat % 16 * 4 / 4 = b.toNat := by omega
  simp only [Nat.mul_mod_left, if_true, h₁, h₂, UInt8.ofNat_toNat]

theorem decodeFour_symbols (a b c : UInt8) :
    decodeFour e (e.symbol (a.toNat / 4)) (e.symbol (a.toNat % 4 * 16 + b.toNat / 16))
      (e.symbol (b.toNat % 16 * 4 + c.toNat / 64)) (e.symbol (c.toNat % 64)) = some [a, b, c] := by
  have ha := a.toNat_lt
  have hb := b.toNat_lt
  have hc := c.toNat_lt
  unfold decodeFour
  rw [e.value_symbol _ (by omega), e.value_symbol _ (by omega), e.value_symbol _ (by omega),
    e.value_symbol _ (by omega)]
  have h₁ : a.toNat / 4 * 4 + (a.toNat % 4 * 16 + b.toNat / 16) / 16 = a.toNat := by omega
  have h₂ : (a.toNat % 4 * 16 + b.toNat / 16) % 16 * 16 + (b.toNat % 16 * 4 + c.toNat / 64) / 4
      = b.toNat := by omega
  have h₃ : (b.toNat % 16 * 4 + c.toNat / 64) % 4 * 64 + c.toNat % 64 = c.toNat := by omega
  simp only [h₁, h₂, h₃, UInt8.ofNat_toNat]

/-- **What is encoded reads back.** -/
theorem decode_encode : ∀ bytes : List UInt8, decode e (encode e bytes) = some bytes
  | [] => rfl
  | [a] => by
      unfold encode
      cases hp : e.padded with
      | true => simp [decode, hp, decodeTwo_symbols]
      | false => simp [decode, hp, decodeTwo_symbols]
  | [a, b] => by
      have hne : e.symbol (b.toNat % 16 * 4) ≠ '=' := e.symbol_ne_pad _ (by omega)
      unfold encode
      cases hp : e.padded with
      | true => simp [decode, hp, decodeThree_symbols, hne]
      | false => simp [decode, hp, decodeThree_symbols]
  | a :: b :: c :: rest => by
      have hne : e.symbol (c.toNat % 64) ≠ '=' := e.symbol_ne_pad _ (by omega)
      have ih := decode_encode rest
      rw [encode, decode, if_neg (fun h => hne h.2.2), decodeFour_symbols, ih]
      rfl

/-- An encoding is at least as long as the bytes it encodes. -/
theorem length_le_encode : ∀ bytes : List UInt8, bytes.length ≤ (encode e bytes).length
  | [] => Nat.le_refl 0
  | [a] => by simp [encode]
  | [a, b] => by simp [encode]
  | a :: b :: c :: rest => by
      have ih := length_le_encode rest
      simp only [encode, List.length_cons]
      omega

example : encode urlSafeNoPad [102, 111, 255] = ['Z', 'm', '_', '_'] := by decide

end Base64
