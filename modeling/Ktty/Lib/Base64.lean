import Mathlib.Data.List.Basic

/-!
# Base64

The standard alphabet with canonical padding. `encode` works on groups of three bytes, `decode` on
groups of four characters; it rejects a missing or misplaced `=`, a character outside the alphabet
and non-zero bits under the padding. `decode_encode` is the round trip.
-/

set_option autoImplicit false

namespace Ktty.Lib.Base64

/-- The digit of a value below 64: `A`-`Z`, `a`-`z`, `0`-`9`, `+`, `/`. -/
def digit (n : Nat) : Char :=
  if n < 26 then Char.ofNat (65 + n)
  else if n < 52 then Char.ofNat (71 + n)
  else if n < 62 then Char.ofNat (n - 4)
  else if n = 62 then '+' else '/'

/-- The value of a digit. -/
def value (c : Char) : Option Nat :=
  if 'A' ≤ c ∧ c ≤ 'Z' then some (c.toNat - 65)
  else if 'a' ≤ c ∧ c ≤ 'z' then some (c.toNat - 71)
  else if '0' ≤ c ∧ c ≤ '9' then some (c.toNat + 4)
  else if c = '+' then some 62
  else if c = '/' then some 63 else none

theorem value_digit {n : Nat} (h : n < 64) : value (digit n) = some n := by
  have key : ∀ m : Fin 64, value (digit m) = some m.val := by decide +kernel
  exact key ⟨n, h⟩

theorem digit_ne_pad {n : Nat} (h : n < 64) : digit n ≠ '=' := by
  have key : ∀ m : Fin 64, digit m ≠ '=' := by decide +kernel
  exact key ⟨n, h⟩

/-- Encode: three bytes give four digits; a rest of one or two bytes is padded. -/
def encode : List UInt8 → List Char
  | [] => []
  | [a] => [digit (a.toNat / 4), digit (a.toNat % 4 * 16), '=', '=']
  | [a, b] =>
      [digit (a.toNat / 4), digit (a.toNat % 4 * 16 + b.toNat / 16), digit (b.toNat % 16 * 4), '=']
  | a :: b :: c :: rest =>
      digit (a.toNat / 4) :: digit (a.toNat % 4 * 16 + b.toNat / 16) ::
        digit (b.toNat % 16 * 4 + c.toNat / 64) :: digit (c.toNat % 64) :: encode rest

/-- Decode a last group of two digits and two padding characters. -/
def decodeOne (w x : Nat) : Option (List UInt8) :=
  if x % 16 = 0 then some [UInt8.ofNat (w * 4 + x / 16)] else none

/-- Decode a last group of three digits and one padding character. -/
def decodeTwo (w x y : Nat) : Option (List UInt8) :=
  if y % 4 = 0 then some [UInt8.ofNat (w * 4 + x / 16), UInt8.ofNat (x % 16 * 16 + y / 4)] else none

/-- Decode a full group of four digits. -/
def decodeThree (w x y z : Nat) : List UInt8 :=
  [UInt8.ofNat (w * 4 + x / 16), UInt8.ofNat (x % 16 * 16 + y / 4), UInt8.ofNat (y % 4 * 64 + z)]

/-- Decode; `none` on anything that `encode` does not produce. -/
def decode : List Char → Option (List UInt8)
  | [] => some []
  | w :: x :: y :: z :: rest =>
      if z = '=' ∧ rest = [] then
        if y = '=' then do decodeOne (← value w) (← value x)
        else do decodeTwo (← value w) (← value x) (← value y)
      else do
        return decodeThree (← value w) (← value x) (← value y) (← value z) ++ (← decode rest)
  | _ => none

theorem ofNat_eq {a : UInt8} {n : Nat} (h : n = a.toNat) : UInt8.ofNat n = a := by
  rw [h, UInt8.ofNat_toNat]

/-- Decoding undoes encoding. -/
theorem decode_encode (bs : List UInt8) : decode (encode bs) = some bs := by
  induction bs using encode.induct with
  | case1 => rfl
  | case2 a =>
    -- one byte: two digits and two padding characters
    have ha := a.toNat_lt
    simp only [encode, decode, value_digit (show a.toNat / 4 < 64 by omega),
      value_digit (show a.toNat % 4 * 16 < 64 by omega), decodeOne, and_self, if_true,
      Option.bind_eq_bind, Option.bind_some, show a.toNat % 4 * 16 % 16 = 0 by omega]
    rw [ofNat_eq (a := a) (by omega)]
  | case3 a b =>
    -- two bytes: three digits and one padding character
    have ha := a.toNat_lt
    have hb := b.toNat_lt
    have hy : digit (b.toNat % 16 * 4) ≠ '=' := digit_ne_pad (by omega)
    simp only [encode, decode, hy, if_false, and_self, if_true, decodeTwo,
      value_digit (show a.toNat / 4 < 64 by omega),
      value_digit (show a.toNat % 4 * 16 + b.toNat / 16 < 64 by omega),
      value_digit (show b.toNat % 16 * 4 < 64 by omega),
      Option.bind_eq_bind, Option.bind_some, show b.toNat % 16 * 4 % 4 = 0 by omega]
    rw [ofNat_eq (a := a) (by omega), ofNat_eq (a := b) (by omega)]
  | case4 a b c rest ih =>
    -- a full group, decoded without padding even if it is the last one
    have ha := a.toNat_lt
    have hb := b.toNat_lt
    have hc := c.toNat_lt
    have hz : digit (c.toNat % 64) ≠ '=' := digit_ne_pad (by omega)
    simp only [encode, decode, hz, false_and, if_false, ih, decodeThree,
      value_digit (show a.toNat / 4 < 64 by omega),
      value_digit (show a.toNat % 4 * 16 + b.toNat / 16 < 64 by omega),
      value_digit (show b.toNat % 16 * 4 + c.toNat / 64 < 64 by omega),
      value_digit (show c.toNat % 64 < 64 by omega), Option.bind_eq_bind, Option.bind_some]
    rw [ofNat_eq (a := a) (by omega), ofNat_eq (a := b) (by omega), ofNat_eq (a := c) (by omega)]
    rfl

/-! ## Size -/

/-- Every group of three bytes, the last one filled up, gives four characters. -/
theorem length_encode (bs : List UInt8) : (encode bs).length = 4 * ((bs.length + 2) / 3) := by
  induction bs using encode.induct with
  | case1 => rfl
  | case2 a => simp [encode]
  | case3 a b => simp [encode]
  | case4 a b c rest ih =>
    simp only [encode, List.length_cons, ih]
    omega

/-- An encoded text consists of digits and padding. -/
theorem mem_encode {bs : List UInt8} {x : Char} (h : x ∈ encode bs) :
    x = '=' ∨ ∃ n < 64, x = digit n := by
  induction bs using encode.induct with
  | case1 => cases h
  | case2 a =>
    have ha := a.toNat_lt
    simp only [encode, List.mem_cons, List.not_mem_nil, or_false] at h
    rcases h with rfl | rfl | rfl | rfl
    · exact Or.inr ⟨_, by omega, rfl⟩
    · exact Or.inr ⟨_, by omega, rfl⟩
    · exact Or.inl rfl
    · exact Or.inl rfl
  | case3 a b =>
    have ha := a.toNat_lt
    have hb := b.toNat_lt
    simp only [encode, List.mem_cons, List.not_mem_nil, or_false] at h
    rcases h with rfl | rfl | rfl | rfl
    · exact Or.inr ⟨_, by omega, rfl⟩
    · exact Or.inr ⟨_, by omega, rfl⟩
    · exact Or.inr ⟨_, by omega, rfl⟩
    · exact Or.inl rfl
  | case4 a b c rest ih =>
    have ha := a.toNat_lt
    have hb := b.toNat_lt
    have hc := c.toNat_lt
    simp only [encode, List.mem_cons] at h
    rcases h with rfl | rfl | rfl | rfl | h
    · exact Or.inr ⟨_, by omega, rfl⟩
    · exact Or.inr ⟨_, by omega, rfl⟩
    · exact Or.inr ⟨_, by omega, rfl⟩
    · exact Or.inr ⟨_, by omega, rfl⟩
    · exact ih h

/-- How many bytes can be encoded beside `used` other characters in a text of at most `total`. -/
theorem length_encode_add_le_iff {bs : List UInt8} (h : 0 < bs.length) (used total : Nat) :
    used + (encode bs).length ≤ total ↔ bs.length ≤ 3 * ((total - used) / 4) := by
  rw [length_encode]
  omega

end Ktty.Lib.Base64
