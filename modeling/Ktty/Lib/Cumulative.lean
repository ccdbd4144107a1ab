import Mathlib.Order.Nat
import Mathlib.Data.Nat.Find

/-!
# Cumulative acknowledgements

A receiver of packets numbered `1, 2, …` keeps a single number `n` to say what it has got. With `A` the
packets that are accounted for and `R m` for "a retransmission of packet `m` has been asked for", the
number is sound (`Sound`) if the first gap in `A` up to `n`, should there be one, has been asked for.

`sound_iff` states this as an alternative. `Sound.mono` says that more packets and more requests keep
`n` sound, and `sound_insert_iff` when `n` may be set to the number of a packet that arrives.
-/

set_option autoImplicit false

namespace Ktty.Lib.Cumulative

/-- `m` is the first packet that is not accounted for. -/
structure FirstGap (A : Nat → Prop) (m : Nat) : Prop where
  pos : 1 ≤ m
  missing : ¬ A m
  below : ∀ k, 1 ≤ k → k < m → A k

/-- The first gap up to `n` has been asked for. -/
def Sound (A R : Nat → Prop) (n : Int) : Prop := ∀ m : Nat, (m : Int) ≤ n → FirstGap A m → R m

variable {A B R S : Nat → Prop} {n : Int} {m : Nat}

/-- Below a missing packet is the first gap. -/
theorem exists_firstGap (hpos : 1 ≤ m) (h : ¬ A m) : ∃ k, k ≤ m ∧ FirstGap A k := by
  classical
  have hex : ∃ k, 1 ≤ k ∧ ¬ A k := ⟨m, hpos, h⟩
  refine ⟨Nat.find hex, Nat.find_min' hex ⟨hpos, h⟩, ?_, ?_, ?_⟩
  · exact (Nat.find_spec hex).1
  · exact (Nat.find_spec hex).2
  · intro k hk hlt
    by_contra hA
    exact Nat.find_min hex hlt ⟨hk, hA⟩

/-- The first gap is unique. -/
theorem FirstGap.unique {k : Nat} (hm : FirstGap A m) (hk : FirstGap A k) : m = k := by
  rcases Nat.lt_trichotomy m k with h | h | h
  · exact absurd (hk.below m hm.pos h) hm.missing
  · exact h
  · exact absurd (hm.below k hk.pos h) hk.missing

/-- Everything up to `n` is accounted for, or the first gap has been asked for. -/
theorem sound_iff : Sound A R n ↔
    (∀ m : Nat, 1 ≤ m → (m : Int) ≤ n → A m) ∨ ∃ m : Nat, (m : Int) ≤ n ∧ FirstGap A m ∧ R m := by
  constructor
  · intro h
    by_cases hall : ∀ m : Nat, 1 ≤ m → (m : Int) ≤ n → A m
    · exact Or.inl hall
    · push Not at hall
      obtain ⟨m, hpos, hle, hA⟩ := hall
      obtain ⟨k, hkm, hk⟩ := exists_firstGap hpos hA
      have hkn : (k : Int) ≤ n := by omega
      exact Or.inr ⟨k, hkn, hk, h k hkn hk⟩
  · intro h m hle hm
    rcases h with hall | ⟨k, -, hk, hR⟩
    · exact absurd (hall m hm.pos hle) hm.missing
    · rw [hm.unique hk]
      exact hR

/-- More packets and more requests keep a number sound, if a request reaches to the packets behind the
one it asks for. -/
theorem Sound.mono (h : Sound A R n) (hA : ∀ k, A k → B k) (hR : ∀ k, R k → S k)
    (hup : ∀ k l, k ≤ l → S k → S l) : Sound B S n := by
  intro m hle hm
  have hmiss : ¬ A m := fun ha => hm.missing (hA m ha)
  obtain ⟨k, hkm, hk⟩ := exists_firstGap hm.pos hmiss
  exact hup k m hkm (hR k (h k (by omega) hk))

/-- A gap below `n` is the first one with packet `n` as without it. -/
theorem firstGap_insert_iff (hlt : (m : Int) < n) :
    FirstGap (fun k => A k ∨ (k : Int) = n) m ↔ FirstGap A m := by
  constructor
  · intro h
    refine ⟨h.pos, fun ha => h.missing (Or.inl ha), fun k hk hkm => ?_⟩
    rcases h.below k hk hkm with ha | rfl
    · exact ha
    · omega
  · intro h
    refine ⟨h.pos, ?_, fun k hk hkm => Or.inl (h.below k hk hkm)⟩
    rintro (ha | rfl)
    · exact h.missing ha
    · omega

/-- The number of a packet that arrives is sound exactly when the first gap below it has been asked
for. -/
theorem sound_insert_iff :
    Sound (fun k => A k ∨ (k : Int) = n) R n ↔ ∀ m : Nat, (m : Int) < n → FirstGap A m → R m := by
  constructor
  · intro h m hlt hm
    exact h m (Int.le_of_lt hlt) ((firstGap_insert_iff hlt).2 hm)
  · intro h m hle hm
    have hne : (m : Int) ≠ n := fun heq => hm.missing (Or.inr heq)
    have hlt : (m : Int) < n := by omega
    exact h m hlt ((firstGap_insert_iff hlt).1 hm)

end Ktty.Lib.Cumulative
