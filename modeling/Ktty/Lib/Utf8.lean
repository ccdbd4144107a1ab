import Mathlib.Data.List.Basic

/-!
# UTF-8 with replacement

A decoder that replaces what is ill-formed: each maximal subpart of an ill-formed sequence, and the rest
of a sequence that the input cuts off, gives one replacement character. The byte at which a sequence
breaks off is read again as the start of the next one.

`decode_encodeChar` says that a character is decoded from its bytes, `decode_prefix` that a beginning of
these bytes gives a replacement character, and `decode_tails` that so does each of the bytes behind the
first when it stands alone.
-/

set_option autoImplicit false

namespace Ktty.Lib.Utf8

/-- U+FFFD. -/
def replacement : Char := Char.ofNat 0xFFFD

/-- Where the decoder stands: between characters, or inside of one with `left` more bytes to come after
the next, which lies between `low` and `high`; `bits` have been read. -/
inductive State where
  | start
  | inside (left low high bits : Nat)

/-- The first byte of a character. -/
def lead (b : UInt8) : State × List Char :=
  let n := b.toNat
  if n < 0x80 then (.start, [Char.ofNat n])
  else if n < 0xC2 then (.start, [replacement])
  else if n < 0xE0 then (.inside 0 0x80 0xBF (n - 0xC0), [])
  -- shorter encodings of the same character and surrogates are ill-formed:
  else if n < 0xF0 then
    (.inside 1 (if n = 0xE0 then 0xA0 else 0x80) (if n = 0xED then 0x9F else 0xBF) (n - 0xE0), [])
  else if n < 0xF5 then
    (.inside 2 (if n = 0xF0 then 0x90 else 0x80) (if n = 0xF4 then 0x8F else 0xBF) (n - 0xF0), [])
  else (.start, [replacement])

def step : State → UInt8 → State × List Char
  | .start, b => lead b
  | .inside left low high bits, b =>
      if low ≤ b.toNat ∧ b.toNat ≤ high then
        match left with
        | 0 => (.start, [Char.ofNat (bits * 64 + (b.toNat - 0x80))])
        | left + 1 => (.inside left 0x80 0xBF (bits * 64 + (b.toNat - 0x80)), [])
      else ((lead b).1, replacement :: (lead b).2)

/-- What the end of the input gives. -/
def flush : State → List Char
  | .start => []
  | .inside _ _ _ _ => [replacement]

def decodeFrom : State → List UInt8 → List Char
  | q, [] => flush q
  | q, b :: bs => (step q b).2 ++ decodeFrom (step q b).1 bs

def decode (bs : List UInt8) : List Char := decodeFrom .start bs

def encode (t : List Char) : List UInt8 := t.flatMap String.utf8EncodeChar

/-- A byte behind the first one of a character. -/
def IsTail (b : UInt8) : Prop := 0x80 ≤ b.toNat ∧ b.toNat ≤ 0xBF

/-- From inside of a character, the bytes complete it to `c`. -/
inductive Completes (c : Char) : State → List UInt8 → Prop
  | last {low high bits : Nat} {b : UInt8} : IsTail b → low ≤ b.toNat → b.toNat ≤ high →
      Char.ofNat (bits * 64 + (b.toNat - 0x80)) = c → Completes c (.inside 0 low high bits) [b]
  | more {left low high bits : Nat} {b : UInt8} {bs : List UInt8} : IsTail b → low ≤ b.toNat →
      b.toNat ≤ high →
      Completes c (.inside left 0x80 0xBF (bits * 64 + (b.toNat - 0x80))) bs →
      Completes c (.inside (left + 1) low high bits) (b :: bs)

section Decode

variable {c : Char} {q : State} {b : UInt8} {bs rest : List UInt8}

@[simp] theorem decode_nil : decode [] = [] := rfl

@[simp] theorem encode_nil : encode [] = [] := rfl

@[simp] theorem encode_cons (c : Char) (t : List Char) :
    encode (c :: t) = String.utf8EncodeChar c ++ encode t := rfl

@[simp] theorem encode_append (t u : List Char) : encode (t ++ u) = encode t ++ encode u :=
  List.flatMap_append

theorem encode_flatten (us : List (List Char)) :
    encode us.flatten = (us.map encode).flatten := by
  induction us with
  | nil => rfl
  | cons u us ih => rw [List.flatten_cons, encode_append, ih, List.map_cons, List.flatten_cons]

/-! ## Inside of a character -/

theorem Completes.decodeFrom (h : Completes c q bs) (rest : List UInt8) :
    decodeFrom q (bs ++ rest) = c :: decode rest := by
  induction h with
  | last htail hlow hhigh hc =>
      simp [Utf8.decodeFrom, step, hlow, hhigh, hc, decode]
  | more htail hlow hhigh _ ih =>
      simp [Utf8.decodeFrom, step, hlow, hhigh, ih]

/-- Input that ends inside of a character. -/
theorem Completes.decodeFrom_prefix (h : Completes c q bs) {pre suf : List UInt8}
    (hbs : bs = pre ++ suf) (hsuf : suf ≠ []) : Utf8.decodeFrom q pre = [replacement] := by
  induction h generalizing pre with
  | @last low high bits b htail hlow hhigh hc =>
      cases pre with
      | nil => rfl
      | cons p pre =>
          -- nothing is left behind the last byte
          rw [List.cons_append, List.cons.injEq] at hbs
          exact absurd (List.append_eq_nil_iff.1 hbs.2.symm).2 hsuf
  | @more left low high bits b bs htail hlow hhigh _ ih =>
      cases pre with
      | nil => rfl
      | cons p pre =>
          rw [List.cons_append, List.cons.injEq] at hbs
          obtain ⟨rfl, hbs⟩ := hbs
          simp [Utf8.decodeFrom, step, hlow, hhigh, ih hbs]

theorem Completes.isTail (h : Completes c q bs) (hb : b ∈ bs) : IsTail b := by
  induction h with
  | last htail _ _ _ =>
      rw [List.mem_singleton.1 hb]
      exact htail
  | more htail _ _ _ ih =>
      rcases List.mem_cons.1 hb with rfl | hb
      · exact htail
      · exact ih hb

/-! ## The bytes of a character -/

/-- The tail byte that carries six bits of a character. -/
def tailByte (n : Nat) : UInt8 := UInt8.ofNat (n % 0x40 + 0x80)

theorem tailByte_toNat (n : Nat) : (tailByte n).toNat = n % 64 + 0x80 := by
  rw [tailByte, UInt8.toNat_ofNat']
  omega

theorem isTail_tailByte (n : Nat) : IsTail (tailByte n) := by
  rw [IsTail, tailByte_toNat]
  omega

/-- The last byte of a character. -/
theorem completes_last {low high bits n : Nat} (hlow : low ≤ n % 64 + 0x80)
    (hhigh : n % 64 + 0x80 ≤ high) (hc : bits * 64 + n % 64 = c.toNat) :
    Completes c (.inside 0 low high bits) [tailByte n] := by
  refine Completes.last (isTail_tailByte n) ?_ ?_ ?_
  · rwa [tailByte_toNat]
  · rwa [tailByte_toNat]
  · rw [tailByte_toNat, Nat.add_sub_cancel, hc, Char.ofNat_toNat]

theorem completes_more {left low high bits n : Nat} (hlow : low ≤ n % 64 + 0x80)
    (hhigh : n % 64 + 0x80 ≤ high)
    (h : Completes c (.inside left 0x80 0xBF (bits * 64 + n % 64)) bs) :
    Completes c (.inside (left + 1) low high bits) (tailByte n :: bs) := by
  refine Completes.more (isTail_tailByte n) ?_ ?_ ?_
  · rwa [tailByte_toNat]
  · rwa [tailByte_toNat]
  · rwa [tailByte_toNat, Nat.add_sub_cancel]

theorem lead_two {n : Nat} (hlow : 0xC2 ≤ n) (hhigh : n < 0xE0) :
    lead (UInt8.ofNat n) = (.inside 0 0x80 0xBF (n - 0xC0), []) := by
  have hn : (UInt8.ofNat n).toNat = n := by
    rw [UInt8.toNat_ofNat']
    omega
  simp only [lead, hn]
  rw [if_neg (by omega), if_neg (by omega), if_pos hhigh]

theorem lead_three {n : Nat} (hlow : 0xE0 ≤ n) (hhigh : n < 0xF0) :
    lead (UInt8.ofNat n) =
      (.inside 1 (if n = 0xE0 then 0xA0 else 0x80) (if n = 0xED then 0x9F else 0xBF) (n - 0xE0),
        []) := by
  have hn : (UInt8.ofNat n).toNat = n := by
    rw [UInt8.toNat_ofNat']
    omega
  simp only [lead, hn]
  rw [if_neg (by omega), if_neg (by omega), if_neg (by omega), if_pos hhigh]

theorem lead_four {n : Nat} (hlow : 0xF0 ≤ n) (hhigh : n < 0xF5) :
    lead (UInt8.ofNat n) =
      (.inside 2 (if n = 0xF0 then 0x90 else 0x80) (if n = 0xF4 then 0x8F else 0xBF) (n - 0xF0),
        []) := by
  have hn : (UInt8.ofNat n).toNat = n := by
    rw [UInt8.toNat_ofNat']
    omega
  simp only [lead, hn]
  rw [if_neg (by omega), if_neg (by omega), if_neg (by omega), if_neg (by omega), if_pos hhigh]

/-- The first byte of a character leads inside of it, and the others complete it; or it is the only
one. -/
theorem encodeChar_cases (c : Char) :
    (∃ b, String.utf8EncodeChar c = [b] ∧ lead b = (.start, [c])) ∨
      ∃ b bs q, String.utf8EncodeChar c = b :: bs ∧ lead b = (q, []) ∧ Completes c q bs := by
  have hvalid : c.toNat < 0xD800 ∨ 0xDFFF < c.toNat ∧ c.toNat < 0x110000 := c.valid
  have hval : c.val.toNat = c.toNat := rfl
  simp only [String.utf8EncodeChar, hval]
  by_cases h1 : c.toNat ≤ 0x7f
  · refine Or.inl ⟨UInt8.ofNat c.toNat, by rw [if_pos h1], ?_⟩
    have hn : (UInt8.ofNat c.toNat).toNat = c.toNat := by
      rw [UInt8.toNat_ofNat']
      omega
    simp only [lead, hn]
    rw [if_pos (by omega), Char.ofNat_toNat]
  · refine Or.inr ?_
    simp only [if_neg h1]
    by_cases h2 : c.toNat ≤ 0x7ff
    · refine ⟨UInt8.ofNat (c.toNat / 64 % 0x20 + 0xc0), [tailByte c.toNat], _, if_pos h2,
        lead_two (by omega) (by omega), completes_last (by omega) (by omega) (by omega)⟩
    · simp only [if_neg h2]
      by_cases h3 : c.toNat ≤ 0xffff
      · refine ⟨UInt8.ofNat (c.toNat / 4096 % 0x10 + 0xe0),
          [tailByte (c.toNat / 64), tailByte c.toNat], _, if_pos h3,
          lead_three (by omega) (by omega), completes_more ?_ ?_ ?_⟩
        -- neither an overlong sequence nor a surrogate
        · split <;> omega
        · split <;> omega
        · exact completes_last (by omega) (by omega) (by omega)
      · refine ⟨UInt8.ofNat (c.toNat / 262144 % 0x08 + 0xf0),
          [tailByte (c.toNat / 4096), tailByte (c.toNat / 64), tailByte c.toNat], _, if_neg h3,
          lead_four (by omega) (by omega), completes_more ?_ ?_ ?_⟩
        · split <;> omega
        · split <;> omega
        · exact completes_more (by omega) (by omega)
            (completes_last (by omega) (by omega) (by omega))

/-! ## Decoding what was encoded -/

/-- A character is decoded from its bytes. -/
theorem decode_encodeChar (c : Char) (rest : List UInt8) :
    decode (String.utf8EncodeChar c ++ rest) = c :: decode rest := by
  rcases encodeChar_cases c with ⟨b, hb, hlead⟩ | ⟨b, bs, q, hb, hlead, hc⟩
  · simp [hb, decode, decodeFrom, step, hlead]
  · rw [hb, List.cons_append, decode, decodeFrom, step, hlead]
    exact hc.decodeFrom rest

@[simp] theorem decode_encode (t : List Char) : decode (encode t) = t := by
  induction t with
  | nil => rfl
  | cons c t ih => rw [encode_cons, decode_encodeChar, ih]

theorem decode_encode_append (t : List Char) (rest : List UInt8) :
    decode (encode t ++ rest) = t ++ decode rest := by
  induction t with
  | nil => rfl
  | cons c t ih => rw [encode_cons, List.append_assoc, decode_encodeChar, ih, List.cons_append]

/-- A character of which the input holds only the beginning. -/
theorem decode_prefix {pre suf : List UInt8} (h : String.utf8EncodeChar c = pre ++ suf)
    (hpre : pre ≠ []) (hsuf : suf ≠ []) : decode pre = [replacement] := by
  obtain ⟨p, pre, rfl⟩ := List.exists_cons_of_ne_nil hpre
  rcases encodeChar_cases c with ⟨b, hb, -⟩ | ⟨b, bs, q, hb, hlead, hc⟩
  · rw [hb, List.cons_append, List.cons.injEq] at h
    exact absurd (List.append_eq_nil_iff.1 h.2.symm).2 hsuf
  · rw [hb, List.cons_append, List.cons.injEq] at h
    obtain ⟨rfl, h⟩ := h
    rw [decode, decodeFrom, step, hlead]
    exact hc.decodeFrom_prefix h hsuf

/-- The bytes of a character behind the first are tails. -/
theorem isTail_of_suffix {pre suf : List UInt8} (h : String.utf8EncodeChar c = pre ++ suf)
    (hpre : pre ≠ []) (hb : b ∈ suf) : IsTail b := by
  obtain ⟨p, pre, rfl⟩ := List.exists_cons_of_ne_nil hpre
  rcases encodeChar_cases c with ⟨b', hb', -⟩ | ⟨b', bs, q, hb', -, hc⟩
  · rw [hb', List.cons_append, List.cons.injEq] at h
    rw [(List.append_eq_nil_iff.1 h.2.symm).2] at hb
    cases hb
  · rw [hb', List.cons_append, List.cons.injEq] at h
    exact hc.isTail (h.2 ▸ List.mem_append_right pre hb)

theorem decode_tail_cons (h : IsTail b) (rest : List UInt8) :
    decode (b :: rest) = replacement :: decode rest := by
  obtain ⟨hlow, hhigh⟩ := h
  have hlead : lead b = (.start, [replacement]) := by
    simp only [lead]
    rw [if_neg (by omega), if_pos (by omega)]
  rw [decode, decodeFrom, step, hlead]
  rfl

/-- Each tail byte that stands alone gives a replacement character. -/
theorem decode_tails {bs : List UInt8} (h : ∀ b ∈ bs, IsTail b) (rest : List UInt8) :
    decode (bs ++ rest) = List.replicate bs.length replacement ++ decode rest := by
  induction bs with
  | nil => rfl
  | cons b bs ih =>
      rw [List.cons_append, decode_tail_cons (h b List.mem_cons_self),
        ih fun b' hb' => h b' (List.mem_cons_of_mem b hb')]
      rfl

end Decode

/-! ## Cutting an encoding -/

/-- A text whose encoding is cut in two: between two characters, or within one. -/
inductive Cut (front back : List UInt8) : List Char → Prop
  | between (u v : List Char) : front = encode u → back = encode v → Cut front back (u ++ v)
  | within (u v : List Char) (c : Char) (pre suf : List UInt8) :
      String.utf8EncodeChar c = pre ++ suf → pre ≠ [] → suf ≠ [] →
      front = encode u ++ pre → back = suf ++ encode v → Cut front back (u ++ c :: v)

section Cutting

variable {t : List Char} {front back : List UInt8}

theorem Cut.cons (h : Cut front back t) (c : Char) :
    Cut (String.utf8EncodeChar c ++ front) back (c :: t) := by
  cases h with
  | between u v hfront hback =>
      apply Cut.between (c :: u) v
      · rw [hfront, encode_cons]
      · exact hback
  | within u v d pre suf hd hpre hsuf hfront hback =>
      apply Cut.within (c :: u) v d pre suf hd hpre hsuf
      · rw [hfront, encode_cons, List.append_assoc]
      · exact hback

theorem cut_of_append (h : front ++ back = encode t) : Cut front back t := by
  induction t generalizing front with
  | nil =>
      obtain ⟨rfl, rfl⟩ := List.append_eq_nil_iff.1 h
      exact Cut.between [] [] rfl rfl
  | cons c t ih =>
      rw [encode_cons, List.append_eq_append_iff] at h
      rcases h with ⟨suf, hc, rfl⟩ | ⟨front', rfl, h⟩
      · -- the cut lies in the bytes of `c` or at one of their ends
        by_cases hpre : front = []
        · subst hpre
          exact Cut.between [] (c :: t) rfl (by rw [encode_cons, hc, List.nil_append])
        · by_cases hsuf : suf = []
          · subst hsuf
            rw [List.append_nil] at hc
            exact Cut.between [c] t (by rw [encode_cons, hc, encode_nil, List.append_nil]) rfl
          · exact Cut.within [] t c front suf hc hpre hsuf rfl rfl
      · exact (ih h.symm).cons c

theorem encode_eq_nil (h : encode t = []) : t = [] := by
  rw [← decode_encode t, h, decode_nil]

variable {q : Char → Bool} {ps : List (List UInt8)}

/-- A cut within a character turns it into replacement characters, one in front of the cut and one for
each byte behind it. -/
theorem countP_lt_of_within (hq : q replacement = true) (u v : List Char) {c : Char}
    {pre suf : List UInt8} (hc : String.utf8EncodeChar c = pre ++ suf) (hpre : pre ≠ [])
    (hsuf : suf ≠ []) :
    (u ++ c :: v).countP q < (decode (encode u ++ pre)).countP q + (suf.length + v.countP q) := by
  have hpos : 0 < suf.length := List.length_pos_iff.2 hsuf
  have hone : [c].countP q ≤ 1 := List.countP_le_length
  have hrep : [replacement].countP q = 1 := by simp [hq]
  rw [decode_encode_append, decode_prefix hc hpre hsuf, List.append_cons, List.countP_append,
    List.countP_append, List.countP_append, hrep]
  omega

/-- Decoded in parts, a text has at least as many characters of a kind to which the replacement
character belongs, and one more for each byte of a character that has been begun before. -/
theorem le_countP_decode (hq : q replacement = true) {tails : List UInt8}
    (htails : ∀ b ∈ tails, IsTail b) (h : ps.flatten = tails ++ encode t) :
    tails.length + t.countP q ≤ (ps.flatMap decode).countP q := by
  induction ps generalizing tails t with
  | nil =>
      obtain ⟨rfl, ht⟩ := List.append_eq_nil_iff.1 h.symm
      rw [encode_eq_nil ht]
      exact Nat.zero_le _
  | cons p ps ih =>
      rw [List.flatten_cons, List.append_eq_append_iff] at h
      rw [List.flatMap_cons, List.countP_append]
      rcases h with ⟨tails', rfl, hps⟩ | ⟨front, rfl, hfront⟩
      · -- the part ends before the character that has been begun
        have hrest := ih (fun b hb => htails b (List.mem_append_right p hb)) hps
        have hp := decode_tails (fun b hb => htails b (List.mem_append_left tails' hb)) []
        rw [List.append_nil, decode_nil, List.append_nil] at hp
        rw [hp, List.countP_replicate, if_pos hq, List.length_append]
        omega
      · rw [decode_tails htails, List.countP_append, List.countP_replicate, if_pos hq]
        cases cut_of_append hfront.symm with
        | between u v hu hv =>
            have hnone : ∀ b ∈ ([] : List UInt8), IsTail b := by simp
            have hrest := ih hnone hv
            rw [hu, decode_encode, List.countP_append]
            simp only [List.length_nil, Nat.zero_add] at hrest
            omega
        | within u v c pre suf hc hpre hsuf hu hv =>
            have hrest := ih (fun b hb => isTail_of_suffix hc hpre hb) hv
            have hlt := countP_lt_of_within hq u v hc hpre hsuf
            rw [hu]
            omega

/-- If decoding in parts gives no more of these characters, then no cut is within a character. -/
theorem encoded_of_countP (hq : q replacement = true) (h : ps.flatten = encode t)
    (hcount : (ps.flatMap decode).countP q ≤ t.countP q) : ∀ p ∈ ps, ∃ u, p = encode u := by
  induction ps generalizing t with
  | nil => simp
  | cons p ps ih =>
      rw [List.flatten_cons] at h
      rw [List.flatMap_cons, List.countP_append] at hcount
      cases cut_of_append h with
      | between u v hu hv =>
          rw [hu, decode_encode, List.countP_append] at hcount
          have hrest := ih hv (by omega)
          intro p' hp'
          rcases List.mem_cons.1 hp' with rfl | hp'
          · exact ⟨u, hu⟩
          · exact hrest p' hp'
      | within u v c pre suf hc hpre hsuf hu hv =>
          -- the replacement character and the rest of `c` are too many
          exfalso
          have hrest := le_countP_decode hq (fun b hb => isTail_of_suffix hc hpre hb) hv
          have hlt := countP_lt_of_within hq u v hc hpre hsuf
          rw [hu] at hcount
          omega

end Cutting

end Ktty.Lib.Utf8
