import Ktty.Lib.Occurrence
import Ktty.Wire.FrameSize

/-!
# Quoted words in the text of an object

The agent looks for quoted words in raw frames. In the compact text of a flat object whose keys and
strings need no escapes, what stands between two quotes is a key, a string, or a separator with a colon
or a comma in it. So a quoted word without these two characters is a key or a string of the object
(`key_or_string_of_quoted`). Such a text is ASCII, so a log line can cut it anywhere
(`previewOk_of_flat`).
-/

set_option autoImplicit false

namespace Ktty.Wire

open Ktty.Lib Ktty.Lib.Occurrence

/-- A value whose text has quotes around it only: a number, `null`, or a plain string. -/
def Json.Flat : Json → Prop
  | .null => True
  | .int _ => True
  | .str s => ∀ c ∈ s, Plain c
  | _ => False

/-- The word in quotes. -/
def quoted (word : Text) : Text := '"' :: (word ++ ['"'])

theorem quote_notMem_of_plain {t : Text} (h : ∀ c ∈ t, Plain c) : '"' ∉ t := by
  intro hq
  have hplain : ¬ Plain '"' := by decide
  exact hplain (h _ hq)

theorem quote_plain {t : Text} (h : ∀ c ∈ t, Plain c) : Json.quote t = quoted t := by
  rw [Json.quote, escape_plain h, quoted]

theorem quote_notMem_encodeInt (i : Int) : '"' ∉ Json.encodeInt i := by
  have hdigits : '"' ∉ Nat.toDigits 10 i.natAbs := by
    intro hq
    have hdigit := Nat.isDigit_of_mem_toDigits (by omega) (by omega) hq
    revert hdigit
    decide
  rw [Json.encodeInt]
  split
  · rw [List.mem_cons, not_or]
    exact ⟨by decide, hdigits⟩
  · exact hdigits

section Words

variable {word : Text}

/-- A quoted word at a flat value with a separator behind it is the string itself, or it comes behind
the separator. -/
theorem quoted_at_value {v : Json} {c : Char} {rest : Text} (hv : v.Flat) (hne : word ≠ [])
    (hq : '"' ∉ word) (hc : c ∉ word) (hcq : c ≠ '"')
    (h : quoted word <:+: v.encode ++ c :: rest) : v = .str word ∨ quoted word <:+: rest := by
  -- a value without quotes is passed over, and the separator behind it
  have pass : ∀ t : Text, '"' ∉ t → quoted word <:+: t ++ c :: rest → quoted word <:+: rest := by
    intro t ht hin
    have hin := infix_of_notMem ht hin
    rw [List.infix_cons_iff, List.cons_prefix_cons] at hin
    rcases hin with ⟨heq, -⟩ | hin
    · exact absurd heq.symm hcq
    · exact hin
  cases v with
  | null => exact Or.inr (pass _ (by decide) h)
  | int i => exact Or.inr (pass _ (quote_notMem_encodeInt i) h)
  | str s =>
      rw [Json.encode, quote_plain hv, quoted, quoted, List.cons_append, List.append_assoc] at h
      rcases quoted_infix hq (quote_notMem_of_plain hv) h with rfl | h
      · exact Or.inl rfl
      · exact Or.inr (quoted_separator hne hc hcq h)
  | bool b => exact hv.elim
  | real r => exact hv.elim
  | arr vs => exact hv.elim
  | obj ms => exact hv.elim

/-- A quoted word at a member is its key or its string, or it comes behind the member. -/
theorem quoted_at_member {k : Text} {v : Json} {c : Char} {rest : Text} (hk : ∀ c ∈ k, Plain c)
    (hv : v.Flat) (hne : word ≠ []) (hq : '"' ∉ word) (hcolon : ':' ∉ word) (hc : c ∉ word)
    (hcq : c ≠ '"') (h : quoted word <:+: Json.quote k ++ ':' :: (v.encode ++ c :: rest)) :
    k = word ∨ v = .str word ∨ quoted word <:+: rest := by
  rw [quote_plain hk, quoted, quoted, List.cons_append, List.append_assoc] at h
  rcases quoted_infix hq (quote_notMem_of_plain hk) h with rfl | h
  · exact Or.inl rfl
  · exact Or.inr (quoted_at_value hv hne hq hc hcq (quoted_separator hne hcolon (by decide) h))

/-- A quoted word without colon, comma and brace in a flat object is one of its keys or strings. -/
theorem key_or_string_of_quoted {ms : List (Text × Json)}
    (hms : ∀ m ∈ ms, (∀ c ∈ m.1, Plain c) ∧ m.2.Flat) (hne : word ≠ []) (hq : '"' ∉ word)
    (hcolon : ':' ∉ word) (hcomma : ',' ∉ word) (hbrace : '\x7d' ∉ word)
    (h : quoted word <:+: (Json.obj ms).encode) : ∃ m ∈ ms, m.1 = word ∨ m.2 = .str word := by
  -- the text of the members with the closing brace behind it
  have hmembers : ∀ ms : List (Text × Json), (∀ m ∈ ms, (∀ c ∈ m.1, Plain c) ∧ m.2.Flat) →
      quoted word <:+: Json.encodeMembers ms ++ ['\x7d'] → ∃ m ∈ ms, m.1 = word ∨ m.2 = .str word := by
    intro ms hms h
    induction ms with
    | nil =>
        rw [Json.encodeMembers, List.nil_append] at h
        have hlen := h.length_le
        simp only [quoted, List.length_cons, List.length_append, List.length_nil] at hlen
        omega
    | cons m ms ih =>
        obtain ⟨k, v⟩ := m
        obtain ⟨hk, hv⟩ := hms _ (List.mem_cons_self ..)
        cases ms with
        | nil =>
            rw [Json.encodeMembers, List.append_assoc, List.cons_append] at h
            rcases quoted_at_member hk hv hne hq hcolon hbrace (by decide) h with h | h | h
            · exact ⟨_, List.mem_cons_self .., Or.inl h⟩
            · exact ⟨_, List.mem_cons_self .., Or.inr h⟩
            · have hlen := h.length_le
              simp only [quoted, List.length_cons, List.length_nil] at hlen
              omega
        | cons n ms =>
            rw [Json.encodeMembers, List.append_assoc, List.cons_append, List.append_assoc,
              List.cons_append] at h
            rcases quoted_at_member hk hv hne hq hcolon hcomma (by decide) h with h | h | h
            · exact ⟨_, List.mem_cons_self .., Or.inl h⟩
            · exact ⟨_, List.mem_cons_self .., Or.inr h⟩
            · obtain ⟨m, hm, heq⟩ := ih (fun m hm => hms m (List.mem_cons_of_mem _ hm)) h
              exact ⟨m, List.mem_cons_of_mem _ hm, heq⟩
  rw [Json.encode, List.infix_cons_iff, quoted, List.cons_prefix_cons] at h
  rcases h with ⟨heq, -⟩ | h
  · cases heq
  · exact hmembers ms hms h

end Words

/-! ## ASCII -/

theorem isCharBoundary_of_ascii {t : Text} (h : ∀ c ∈ t, c.utf8Size = 1) {n : Nat} (hn : n ≤ t.length) :
    isCharBoundary t n = true := by
  induction t generalizing n with
  | nil =>
      obtain rfl : n = 0 := Nat.le_zero.1 hn
      rfl
  | cons c t ih =>
      cases n with
      | zero => rfl
      | succ n =>
          have hrest := ih (fun d hd => h d (List.mem_cons_of_mem c hd)) (Nat.le_of_succ_le_succ hn)
          rw [isCharBoundary, h c List.mem_cons_self, Nat.add_sub_cancel, hrest, Bool.and_true,
            decide_eq_true_eq]
          omega

theorem previewOk_of_ascii {t : Text} (h : ∀ c ∈ t, c.utf8Size = 1) (limit : Nat) :
    previewOk limit t = true := by
  apply isCharBoundary_of_ascii h
  rw [byteLen_of_ascii h]
  exact Nat.min_le_left ..

theorem ascii_quote {t : Text} (h : ∀ c ∈ t, Plain c) : ∀ c ∈ Json.quote t, c.utf8Size = 1 := by
  intro c hc
  rw [quote_plain h, quoted, List.mem_cons, List.mem_append, List.mem_singleton] at hc
  rcases hc with rfl | hc | rfl
  · decide
  · exact (h c hc).2
  · decide

theorem ascii_flat {v : Json} (hv : v.Flat) : ∀ c ∈ v.encode, c.utf8Size = 1 := by
  cases v with
  | null =>
      have hnull : (Json.null.encode.all fun c => c.utf8Size = 1) = true := by decide
      exact fun c hc => of_decide_eq_true (List.all_eq_true.1 hnull c hc)
  | int i => exact ascii_encodeInt i
  | str s => exact ascii_quote hv
  | bool b => exact hv.elim
  | real r => exact hv.elim
  | arr vs => exact hv.elim
  | obj ms => exact hv.elim

theorem ascii_encodeMembers {ms : List (Text × Json)}
    (hms : ∀ m ∈ ms, (∀ c ∈ m.1, Plain c) ∧ m.2.Flat) : ∀ c ∈ Json.encodeMembers ms, c.utf8Size = 1 := by
  induction ms with
  | nil =>
      intro c hc
      cases hc
  | cons m ms ih =>
      obtain ⟨k, v⟩ := m
      obtain ⟨hk, hv⟩ := hms _ List.mem_cons_self
      have hrest := ih fun m hm => hms m (List.mem_cons_of_mem _ hm)
      intro c hc
      cases ms with
      | nil =>
          rw [Json.encodeMembers, List.mem_append, List.mem_cons] at hc
          rcases hc with hc | rfl | hc
          · exact ascii_quote hk c hc
          · decide
          · exact ascii_flat hv c hc
      | cons n ms =>
          rw [Json.encodeMembers, List.mem_append, List.mem_cons, List.mem_append, List.mem_cons] at hc
          rcases hc with hc | rfl | hc | rfl | hc
          · exact ascii_quote hk c hc
          · decide
          · exact ascii_flat hv c hc
          · decide
          · exact hrest c hc

/-- The text of a flat plain object can be cut anywhere. -/
theorem previewOk_of_flat {ms : List (Text × Json)}
    (hms : ∀ m ∈ ms, (∀ c ∈ m.1, Plain c) ∧ m.2.Flat) (limit : Nat) :
    previewOk limit (Json.obj ms).encode = true := by
  apply previewOk_of_ascii
  intro c hc
  rw [Json.encode, List.mem_cons, List.mem_append, List.mem_singleton] at hc
  rcases hc with rfl | hc | rfl
  · decide
  · exact ascii_encodeMembers hms c hc
  · decide

end Ktty.Wire
