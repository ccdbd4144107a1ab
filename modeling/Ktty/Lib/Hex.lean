import Mathlib.Data.List.Basic

/-!
# Lowercase hex

Two digits for each byte. What matters about a hex string elsewhere is which characters it is made of
(`mem_encode`), and that it determines its bytes (`encode_injective`).
-/

set_option autoImplicit false

namespace Ktty.Lib.Hex

/-- The sixteen digits. -/
def digits : List Char := "0123456789abcdef".toList

/-- The digit of a value below 16. -/
def digit (n : Nat) : Char := if n < 10 then Char.ofNat (48 + n) else Char.ofNat (87 + n)

/-- The high digit, then the low digit, of each byte. -/
def encode (bs : List UInt8) : List Char :=
  bs.flatMap fun b => [digit (b.toNat / 16), digit (b.toNat % 16)]

theorem digit_mem {n : Nat} (h : n < 16) : digit n ∈ digits := by
  have key : ∀ m : Fin 16, digit m ∈ digits := by decide
  exact key ⟨n, h⟩

/-- A hex string is made of hex digits. -/
theorem mem_encode {bs : List UInt8} {c : Char} (h : c ∈ encode bs) : c ∈ digits := by
  simp only [encode, List.mem_flatMap, List.mem_cons, List.not_mem_nil, or_false] at h
  obtain ⟨b, -, hc⟩ := h
  have hb := b.toNat_lt
  rcases hc with rfl | rfl
  · exact digit_mem (by omega)
  · exact digit_mem (by omega)

theorem digit_inj {m n : Nat} (hm : m < 16) (hn : n < 16) (h : digit m = digit n) : m = n := by
  have key : ∀ i j : Fin 16, digit i = digit j → i = j := by decide
  exact congrArg Fin.val (key ⟨m, hm⟩ ⟨n, hn⟩ h)

/-- A hex string determines its bytes. -/
theorem encode_injective : Function.Injective encode := by
  intro bs
  induction bs with
  | nil =>
      intro cs h
      cases cs with
      | nil => rfl
      | cons c cs => cases h
  | cons b bs ih =>
      intro cs h
      cases cs with
      | nil => cases h
      | cons c cs =>
          have hb := b.toNat_lt
          have hc := c.toNat_lt
          simp only [encode, List.flatMap_cons, List.cons_append, List.nil_append, List.cons.injEq] at h
          obtain ⟨hhigh, hlow, hrest⟩ := h
          have hdiv := digit_inj (by omega) (by omega) hhigh
          have hmod := digit_inj (by omega) (by omega) hlow
          have hsame : b = c := UInt8.toNat_inj.1 (by omega)
          rw [hsame, ih hrest]

end Ktty.Lib.Hex
